import Crosstab.Proofs.Wave.Turns

/-!
# Waves in order

What holds of a wave and of the turns that are due for it, in whatever order they are taken.
-/
namespace Crosstab

open List Stage

namespace Ending

/-- The query was answered with rows. -/
def isRows : Ending → Bool
  | outcome (.ok _) => true
  | _ => false

end Ending

namespace Wave

variable {wave changed : Wave} {due rest turns : Turns} {index : Nat}

/-! ### The end of a wave -/

def stages (wave : Wave) : List Stage := wave.inquiries.map Inquiry.stage

theorem stage_eq_getElem? (wave : Wave) (i : Nat) :
    wave.stage i = wave.stages[i]?.getD (.done .withdrawn) := by
  cases there : wave.inquiries[i]? <;> simp [stage, stages, there]

theorem isOver_iff : wave.isOver ↔ ∀ stage ∈ wave.stages, stage.isDone := by
  simp [isOver, stages]

theorem stage_isDone_of_isOver (spent : wave.isOver) (i : Nat) : (wave.stage i).isDone := by
  rw [stage_eq_getElem?]
  cases there : wave.stages[i]? with
  | none => rfl
  | some stage => exact isOver_iff.mp spent stage (mem_of_getElem? there)

/-- A query has ended with a failure. -/
def HasFailed (wave : Wave) (error : Error) : Prop :=
  ∃ i, wave.stage i = .done (.outcome (.error error))

/-- A query has ended without an answer. -/
def HasDropped (wave : Wave) : Prop := ∃ i < wave.inquiries.length, wave.stage i = .done .withdrawn

/-- What is known about the end of a wave. -/
structure Concludes (wave : Wave) : Prop where
  missing : wave.ending = none → wave.inquiries ≠ [] → wave.reported < wave.inquiries.length
  succeeded : ∀ rows, wave.ending = some (.ok rows) →
    wave.revoked = false ∧ wave.reported = wave.inquiries.length ∧
      wave.stages = rows.map fun found => .done (.outcome (.ok found))
  failed : ∀ error, wave.ending = some (.error error) →
    wave.HasFailed error ∨ (error = .superseded ∧ (wave.revoked = true ∨ wave.HasDropped))
  revoked : wave.revoked = true → ∀ i, (wave.stage i).isEnding = true

/-- Queries go on, but those that have ended stay as they are. -/
structure Continues (wave changed : Wave) : Prop where
  queries : changed.queries = wave.queries
  final : ∀ i ending, wave.stage i = .done ending → changed.stage i = .done ending

theorem length_eq_of_queries_eq (same : changed.queries = wave.queries) :
    changed.inquiries.length = wave.inquiries.length := by
  simpa [queries] using congrArg length same

theorem Continues.refl : Continues wave wave := ⟨rfl, fun _ _ done => done⟩

namespace Continues

variable (continues : Continues wave changed)
include continues

theorem hasFailed {error : Error} (failed : wave.HasFailed error) : changed.HasFailed error := by
  obtain ⟨i, stage⟩ := failed
  exact ⟨i, continues.final i _ stage⟩

private theorem hasDropped (dropped : wave.HasDropped) : changed.HasDropped := by
  obtain ⟨i, inside, stage⟩ := dropped
  exact ⟨i, by rwa [length_eq_of_queries_eq continues.queries], continues.final i _ stage⟩

theorem stages_eq (spent : ∀ stage ∈ wave.stages, stage.isDone) : changed.stages = wave.stages := by
  have length := length_eq_of_queries_eq continues.queries
  apply ext_getElem
  · simpa [stages] using length
  · intro i inside inside'
    have here : wave.stage i = wave.stages[i] := by
      rw [stage_eq_getElem?, getElem?_eq_getElem inside', Option.getD_some]
    have there : changed.stage i = changed.stages[i] := by
      rw [stage_eq_getElem?, getElem?_eq_getElem inside, Option.getD_some]
    have done := spent _ (getElem_mem inside')
    rw [← there, ← here] at *
    cases stage : wave.stage i with
    | done ending => exact continues.final i ending stage
    | _ => simp [stage, isDone] at done

theorem isOver (spent : wave.isOver) : changed.isOver := by
  rw [isOver_iff] at spent ⊢
  rwa [continues.stages_eq spent]

end Continues

/-- Queries go on, and nothing is reported. -/
structure Advances (wave changed : Wave) : Prop extends Continues wave changed where
  reported : changed.reported = wave.reported
  ending : changed.ending = wave.ending
  revoked : changed.revoked = wave.revoked
  isEnding : ∀ i, (wave.stage i).isEnding = true → (changed.stage i).isEnding = true

theorem Advances.concludes (advances : Advances wave changed) (concludes : wave.Concludes) :
    changed.Concludes := by
  have length := length_eq_of_queries_eq advances.queries
  exact {
    missing := by
      intro unknown nonempty
      rw [advances.reported, length]
      refine concludes.missing (advances.ending ▸ unknown) fun none => nonempty ?_
      exact eq_nil_of_length_eq_zero (by rw [length, none, length_nil])
    succeeded := by
      intro rows known
      obtain ⟨kept, all, answered⟩ := concludes.succeeded rows (advances.ending ▸ known)
      refine ⟨advances.revoked.trans kept, by rw [advances.reported, all, length], ?_⟩
      rw [advances.stages_eq ?_, answered]
      rw [answered]
      simp [isDone]
    failed := by
      intro error known
      refine (concludes.failed error (advances.ending ▸ known)).imp advances.hasFailed ?_
      rintro ⟨same, cause⟩
      exact ⟨same, cause.imp advances.revoked.trans advances.hasDropped⟩
    revoked := fun revoked i => advances.isEnding i (concludes.revoked (advances.revoked ▸ revoked) i) }

/-! ### What is due for a wave -/

structure Orderly (wave : Wave) (due : Turns) : Prop extends Concludes wave where
  awaited : ∀ i, (wave.stage i).Awaited fun d => (i, d) ∈ due
  reports : wave.reported + due.countP (fun turn => turn.2 == .report) = wave.count isDone
  ended : ∀ i, (i, .report) ∈ due → i < wave.inquiries.length ∧ (wave.stage i).isDone = true
  /-- Nothing but rows was reported while the end of the wave is open. -/
  unreported : wave.ending = none → ∀ i < wave.inquiries.length, ∀ ending,
    wave.stage i = .done ending → ending.isRows = false → (i, .report) ∈ due

theorem Orderly.of_perm {due' : Turns} (orderly : wave.Orderly due) (same : due.Perm due') :
    wave.Orderly due' where
  toConcludes := orderly.toConcludes
  awaited := fun i => (orderly.awaited i).mono fun _ => same.mem_iff.mp
  reports := by rw [← same.countP_eq, orderly.reports]
  ended := fun i member => orderly.ended i (same.mem_iff.mpr member)
  unreported := fun unknown i inside ending stage bad =>
    same.mem_iff.mp (orderly.unreported unknown i inside ending stage bad)

section

variable {limit : Settings.TimeLimit} {gives : Ending → Prop} {timeout : Error} {taken : Due}

theorem Turned.advances (turned : Turned limit gives timeout index taken wave changed turns) :
    Advances wave changed := by
  obtain ⟨dues, goes, _⟩ := turned.own
  exact {
    queries := turned.queries
    reported := turned.reported
    ending := turned.ending
    revoked := turned.revoked
    final := by
      intro i ending done
      by_cases same : i = index
      · subst same
        rw [done] at goes
        exact goes.done_stays
      · rcases turned.others i same with stays | ⟨waits, _⟩
        · exact stays.trans done
        · simp [done] at waits
    isEnding := by
      intro i ending
      by_cases same : i = index
      · subst same
        exact goes.isEnding ending
      · rcases turned.others i same with stays | ⟨waits, _⟩
        · rwa [stays]
        · simp [waits, isEnding] at ending }

theorem Orderly.turned (orderly : wave.Orderly ((index, taken) :: rest)) (silent : taken ≠ .report)
    (turned : Turned limit gives timeout index taken wave changed turns) :
    changed.Orderly (rest ++ turns) := by
  obtain ⟨dues, goes, own⟩ := turned.own
  have length := length_eq_of_queries_eq turned.queries
  -- What is due for others, or is a report, was not taken.
  have kept {i : Nat} {d : Due} (different : i ≠ index ∨ d = .report)
      (member : (i, d) ∈ (index, taken) :: rest) : (i, d) ∈ rest ++ turns := by
    rcases mem_cons.mp member with same | later
    · simp only [Prod.mk.injEq] at same
      rcases different with different | rfl
      · exact absurd same.1 different
      · exact absurd same.2.symm silent
    · exact mem_append_left _ later
  have ends : (index, .report) ∈ turns ↔
      (wave.stage index).isDone = false ∧ (changed.stage index).isDone := by
    rw [own, goes.report_mem_iff]
  exact {
    toConcludes := turned.advances.concludes orderly.toConcludes
    awaited := by
      intro i
      by_cases same : i = index
      · subst same
        have before : (wave.stage i).Awaited fun d => d = taken ∨ (i, d) ∈ rest :=
          (orderly.awaited i).mono fun d member => by simpa using member
        refine (goes.awaited before).mono fun d later => ?_
        rw [mem_append, own]
        exact later
      · rcases turned.others i same with stays | ⟨_, called, calls⟩
        · rw [stays]
          exact (orderly.awaited i).mono fun d => kept (.inl same)
        · rw [called]
          exact mem_append_right _ calls
    reports := by
      have counted := orderly.reports
      rw [countP_cons_of_neg (by simpa using silent)] at counted
      rw [turned.reported, turned.ended, countP_append, ← counted, Nat.add_assoc]
    ended := by
      intro i member
      rw [length]
      rcases mem_append.mp member with later | new
      · obtain ⟨inside, done⟩ := orderly.ended i (mem_cons_of_mem _ later)
        cases stage : wave.stage i with
        | done ending => exact ⟨inside, by rw [turned.advances.final i ending stage]; rfl⟩
        | _ => simp [stage, isDone] at done
      · obtain rfl := turned.reports i new
        obtain ⟨running, done⟩ := ends.mp new
        exact ⟨lt_length_of_stage fun same => by simp [same, isDone] at running, done⟩
    unreported := by
      intro unknown i inside ending done bad
      by_cases before : ∃ ending', wave.stage i = .done ending'
      · obtain ⟨ending', stage⟩ := before
        have same := (turned.advances.final i ending' stage).symm.trans done
        cases same
        exact kept (.inr rfl) (orderly.unreported (turned.ending ▸ unknown) i
          (length ▸ inside) ending stage bad)
      · -- It has just ended, so it is the query whose turn was taken, and it reports.
        have running : (wave.stage i).isDone = false := by
          cases stage : wave.stage i with
          | done ending' => exact absurd ⟨ending', stage⟩ before
          | _ => rfl
        by_cases same : i = index
        · subst same
          exact mem_append_right _ (ends.mpr ⟨running, by rw [done]; rfl⟩)
        · rcases turned.others i same with stays | ⟨_, called, _⟩
          · exact absurd ⟨ending, stays ▸ done⟩ before
          · simp [called] at done }

end

theorem Orderly.skip {taken : Due} (orderly : wave.Orderly ((index, taken) :: rest))
    (outside : wave.inquiries.length ≤ index) : wave.Orderly rest where
  toConcludes := orderly.toConcludes
  awaited := by
    intro i
    by_cases same : i = index
    · rw [same, stage_of_length_le outside]
      trivial
    · exact (orderly.awaited i).mono fun d member => by simpa [same] using member
  reports := by
    have silent : taken ≠ .report := by
      rintro rfl
      have inside := (orderly.ended index mem_cons_self).1
      omega
    have counted := orderly.reports
    rwa [countP_cons_of_neg (by simpa using silent)] at counted
  ended := fun i member => orderly.ended i (mem_cons_of_mem _ member)
  unreported := by
    intro unknown i inside ending stage bad
    refine (mem_cons.mp (orderly.unreported unknown i inside ending stage bad)).resolve_left fun same => ?_
    simp only [Prod.mk.injEq] at same
    omega

/-! ### Reports -/

section

variable (wave) (index)

/-- What a report does to a wave: it counts, and the end of the wave may be known by it. -/
inductive Reports : Wave × Bool → Prop
  | late (known : wave.ending.isSome = true) :
    Reports ({ wave with reported := wave.reported + 1 }, false)
  | rows {found} (unknown : wave.ending = none) (answered : wave.stage index = .done (.outcome (.ok found)))
    (more : wave.reported + 1 < wave.inquiries.length) :
    Reports ({ wave with reported := wave.reported + 1 }, false)
  | failure {error} (unknown : wave.ending = none)
    (failed : wave.stage index = .done (.outcome (.error error))) :
    Reports ({ wave with reported := wave.reported + 1, ending := some (.error error) }, true)
  | dropped (unknown : wave.ending = none)
    (unanswered : ∀ result, wave.stage index ≠ .done (.outcome result)) :
    Reports ({ wave with reported := wave.reported + 1, ending := some (.error .superseded) }, true)
  | revoked (unknown : wave.ending = none) (revoked : wave.revoked = true) :
    Reports ({ wave with reported := wave.reported + 1, ending := some (.error .superseded) }, true)
  | last {found} (unknown : wave.ending = none) (kept : wave.revoked = false)
    (answered : wave.stage index = .done (.outcome (.ok found)))
    (all : wave.inquiries.length ≤ wave.reported + 1) :
    Reports ({ wave with reported := wave.reported + 1, ending := some (.ok wave.rows) }, true)

theorem reports_reportTurn : wave.Reports index (wave.reportTurn index) := by
  simp only [reportTurn]
  split
  next known => exact .late known
  next open_ =>
    have unknown : wave.ending = none := by simpa using open_
    split
    next error failed => exact .failure unknown failed
    next found answered =>
      split
      next more => exact .rows unknown answered more
      next all =>
        split
        next revoked => exact .revoked unknown revoked
        next kept => exact .last unknown (by simpa using kept) answered (Nat.le_of_not_lt all)
    next failed unanswered =>
      refine .dropped unknown fun result done => ?_
      cases result with
      | error error => exact failed error done
      | ok found => exact unanswered found done

theorem reportTurn_eq :
    (wave.reportTurn index).1.inquiries = wave.inquiries ∧ (wave.reportTurn index).1.free = wave.free ∧
      (wave.reportTurn index).1.revoked = wave.revoked := by
  have reports := reports_reportTurn wave index
  generalize wave.reportTurn index = result at reports
  cases reports <;> exact ⟨rfl, rfl, rfl⟩

theorem continues_reportTurn : Continues wave (wave.reportTurn index).1 := by
  obtain ⟨inquiries, _, _⟩ := reportTurn_eq wave index
  refine ⟨by rw [queries, inquiries, queries], fun i ending done => ?_⟩
  simpa only [stage, inquiries] using done

theorem reportTurn_known :
    ((wave.reportTurn index).2 = false ∧ (wave.reportTurn index).1.ending = wave.ending) ∨
      ((wave.reportTurn index).2 ∧ wave.ending = none ∧
        (wave.reportTurn index).1.ending.isSome) := by
  have reports := reports_reportTurn wave index
  generalize wave.reportTurn index = result at reports
  cases reports with
  | late _ | rows _ _ _ => exact .inl ⟨rfl, rfl⟩
  | failure unknown _ | dropped unknown _ | revoked unknown _ | last unknown _ _ _ =>
    exact .inr ⟨rfl, unknown, rfl⟩

end

/-- Where every query was answered with rows, these are the rows of the wave. -/
theorem stages_eq_rows (answered : ∀ inquiry ∈ wave.inquiries, ∃ found,
      inquiry.stage = .done (.outcome (.ok found))) :
    wave.stages = wave.rows.map fun found => .done (.outcome (.ok found)) := by
  simp only [stages, rows]
  generalize wave.inquiries = inquiries at answered
  induction inquiries with
  | nil => rfl
  | cons inquiry others ih =>
    obtain ⟨found, stage⟩ := answered inquiry mem_cons_self
    rw [map_cons, filterMap_cons]
    simp only [stage, map_cons]
    rw [ih fun other member => answered other (mem_cons_of_mem _ member)]

/-- With the last report of rows, every query was answered with rows. -/
theorem Orderly.all_rows (orderly : wave.Orderly ((index, .report) :: rest))
    (unknown : wave.ending = none)
    {found : List Row} (answered : wave.stage index = .done (.outcome (.ok found)))
    (all : wave.inquiries.length ≤ wave.reported + 1) :
    wave.reported + 1 = wave.inquiries.length ∧
      wave.stages = wave.rows.map fun found => .done (.outcome (.ok found)) := by
  have counted := orderly.reports
  rw [countP_cons_of_pos (by rfl)] at counted
  have bound : wave.count isDone ≤ wave.inquiries.length := count_le_length
  refine ⟨by omega, stages_eq_rows fun inquiry member => ?_⟩
  obtain ⟨i, there⟩ := getElem?_of_mem member
  have inside : i < wave.inquiries.length := (List.getElem?_eq_some_iff.mp there).1
  rw [← stage_of_getElem? there]
  have done := count_eq_length_iff.mp (by omega : wave.count isDone = _) i inside
  cases stage : wave.stage i with
  | done ending =>
    have good : ending.isRows := by
      by_contra bad
      rcases mem_cons.mp (orderly.unreported unknown i inside ending stage (by simpa using bad)) with
        same | later
      · obtain ⟨rfl, _⟩ : i = index ∧ _ := by simpa only [Prod.mk.injEq] using same
        cases stage.symm.trans answered
        exact bad rfl
      · have positive : 0 < rest.countP fun turn => turn.2 == .report :=
          countP_pos_iff.mpr ⟨_, later, rfl⟩
        omega
    match ending, good with
    | .outcome (.ok found), _ => exact ⟨found, rfl⟩
  | _ => simp [stage, isDone] at done

theorem Orderly.report (orderly : wave.Orderly ((index, .report) :: rest)) :
    (wave.reportTurn index).1.Orderly rest := by
  obtain ⟨inside, done⟩ := orderly.ended index mem_cons_self
  have counted := orderly.reports
  rw [countP_cons_of_pos (by rfl)] at counted
  have awaited : ∀ i, (wave.stage i).Awaited fun d => (i, d) ∈ rest := by
    intro i
    by_cases same : i = index
    · subst same
      cases stage : wave.stage i with
      | done ending => trivial
      | _ => simp [stage, isDone] at done
    · exact (orderly.awaited i).mono fun d member => by simpa [same] using member
  have count : wave.reported + 1 + rest.countP (fun turn => turn.2 == .report) =
      wave.count isDone := by omega
  have ended : ∀ i, (i, .report) ∈ rest → i < wave.inquiries.length ∧ (wave.stage i).isDone :=
    fun i member => orderly.ended i (mem_cons_of_mem _ member)
  -- By a report that makes the end known, nothing is claimed any more about what was not reported.
  have conclude {ending}
      (concludes : Concludes { wave with reported := wave.reported + 1, ending := some ending }) :
      Orderly { wave with reported := wave.reported + 1, ending := some ending } rest :=
    { toConcludes := concludes, awaited, reports := count, ended, unreported := by simp }
  have reports := reports_reportTurn wave index
  generalize wave.reportTurn index = result at reports
  cases reports with
  | late known =>
    obtain ⟨ending, known⟩ := Option.isSome_iff_exists.mp known
    have bound : wave.count isDone ≤ wave.inquiries.length := count_le_length
    exact {
      missing := fun unknown => absurd (known.symm.trans unknown) (Option.some_ne_none _)
      succeeded := by
        intro rows succeeded
        have all := (orderly.succeeded rows succeeded).2.1
        omega
      failed := orderly.failed
      revoked := orderly.revoked
      awaited
      reports := count
      ended
      unreported := fun unknown => absurd (known.symm.trans unknown) (Option.some_ne_none _) }
  | rows unknown answered more =>
    exact {
      missing := fun _ _ => more
      succeeded := by simp [unknown]
      failed := by simp [unknown]
      revoked := orderly.revoked
      awaited
      reports := count
      ended
      unreported := by
        intro _ i inside ending stage bad
        refine (mem_cons.mp (orderly.unreported unknown i inside ending stage bad)).resolve_left ?_
        simp only [Prod.mk.injEq]
        rintro ⟨rfl, _⟩
        cases stage.symm.trans answered
        cases bad }
  | failure unknown failed =>
    refine conclude ⟨by simp, by simp, ?_, orderly.revoked⟩
    rintro error ⟨⟩
    exact .inl ⟨index, failed⟩
  | dropped unknown unanswered =>
    refine conclude ⟨by simp, by simp, ?_, orderly.revoked⟩
    rintro error ⟨⟩
    refine .inr ⟨rfl, .inr ⟨index, inside, ?_⟩⟩
    cases stage : wave.stage index with
    | done ending =>
      cases ending with
      | outcome result => exact absurd stage (unanswered result)
      | withdrawn => exact stage
    | _ => simp [stage, isDone] at done
  | revoked unknown revoked =>
    refine conclude ⟨by simp, by simp, ?_, orderly.revoked⟩
    rintro error ⟨⟩
    exact .inr ⟨rfl, .inl revoked⟩
  | last unknown kept answered all =>
    refine conclude ⟨by simp, ?_, by simp, orderly.revoked⟩
    rintro rows ⟨⟩
    exact ⟨kept, orderly.all_rows unknown answered all⟩

/-! ### Sweeps and new waves -/

variable {change : Inquiry → Stage × List Due} {places : Option Nat}
  {queries : List GroupingQuery}

theorem advances_sweep (sweeps : ∀ inquiry, Stage.Sweeps inquiry.stage (change inquiry)) :
    Advances wave (wave.sweep change).1 where
  queries := queries_sweep
  reported := rfl
  ending := rfl
  revoked := rfl
  final := by
    intro i ending done
    cases there : wave.inquiries[i]? with
    | none => simpa [stage, getElem?_sweep, there] using done
    | some inquiry =>
      rw [stage_sweep there]
      exact (sweeps inquiry).final ending (by rw [← stage_of_getElem? there, done])
  isEnding := by
    intro i ending
    cases there : wave.inquiries[i]? with
    | none => simpa [stage, getElem?_sweep, there] using ending
    | some inquiry =>
      rw [stage_sweep there]
      exact (sweeps inquiry).isEnding (by rw [← stage_of_getElem? there, ending])

theorem Orderly.sweep (orderly : wave.Orderly due)
    (sweeps : ∀ inquiry, Stage.Sweeps inquiry.stage (change inquiry)) :
    (wave.sweep change).1.Orderly (due ++ (wave.sweep change).2) := by
  -- A sweep ends no query, so it asks for no report.
  have quiet : ∀ i, (i, .report) ∉ (wave.sweep change).2 := by
    intro i member
    obtain ⟨inquiry, _, reports⟩ := mem_sweep_iff.mp member
    exact (sweeps inquiry).no_report reports
  have ends (i : Nat) : ((wave.sweep change).1.stage i).isDone = (wave.stage i).isDone := by
    cases there : wave.inquiries[i]? with
    | none => simp [stage, getElem?_sweep, there]
    | some inquiry => rw [stage_sweep there, stage_of_getElem? there, (sweeps inquiry).isDone]
  exact {
    toConcludes := (advances_sweep sweeps).concludes orderly.toConcludes
    awaited := by
      intro i
      cases there : wave.inquiries[i]? with
      | none =>
        simp only [stage, getElem?_sweep, there]
        trivial
      | some inquiry =>
        have before := orderly.awaited i
        rw [stage_of_getElem? there] at before
        rw [stage_sweep there]
        refine ((sweeps inquiry).awaited _ before).mono fun d later => ?_
        rw [mem_append, mem_sweep_iff]
        exact later.imp_right fun member => ⟨inquiry, there, member⟩
    reports := by
      rw [count_sweep fun inquiry => (sweeps inquiry).isDone, countP_append, ← orderly.reports]
      have none : (wave.sweep change).2.countP (fun turn => turn.2 == .report) = 0 := by
        rw [countP_eq_zero]
        rintro ⟨i, d⟩ member
        simp only [beq_iff_eq]
        rintro rfl
        exact quiet i member
      rw [none]
      rfl
    ended := by
      intro i member
      rw [length_sweep, ends]
      exact orderly.ended i ((mem_append.mp member).resolve_right (quiet i))
    unreported := by
      intro unknown i inside ending done bad
      rw [length_sweep] at inside
      have before : (wave.stage i).isDone := by rw [← ends, done]; rfl
      cases stage : wave.stage i with
      | done ending' =>
        cases ((advances_sweep sweeps).final i ending' stage).symm.trans done
        exact mem_append_left _ (orderly.unreported unknown i inside ending stage bad)
      | _ => simp [stage, isDone] at before }

theorem Orderly.revoke (orderly : wave.Orderly due) (unknown : wave.ending = none) :
    Orderly { wave.withdrawAll.1 with revoked := true } (due ++ wave.withdrawAll.2) := by
  have swept := orderly.sweep fun inquiry => sweeps_withdraw inquiry.stage
  exact {
    missing := swept.missing
    succeeded := fun rows known => absurd (unknown.symm.trans known) nofun
    failed := fun error known => absurd (unknown.symm.trans known) nofun
    revoked := fun _ i => isEnding_withdrawAll i
    awaited := swept.awaited
    reports := swept.reports
    ended := swept.ended
    unreported := swept.unreported }

theorem stage_ofQueries {i : Nat} (inside : i < queries.length) :
    (ofQueries places queries).stage i = .fresh := by
  simp [stage, ofQueries, inside]

/-- A new wave is in order when the first turns of its queries are due, and no reports are. -/
theorem orderly_ofQueries (quiet : due.countP (fun turn => turn.2 == .report) = 0) :
    (ofQueries places queries).Orderly
      (due ++ (range queries.length).map fun index => (index, .query)) := by
  have length : (ofQueries places queries).inquiries.length = queries.length := by simp [ofQueries]
  have silent (i : Nat) : (i, .report) ∉
      due ++ (range queries.length).map fun index => (index, .query) := by
    simp only [mem_append, mem_map, Prod.mk.injEq, reduceCtorEq, and_false, exists_false, or_false]
    intro member
    simpa using countP_eq_zero.mp quiet _ member
  exact {
    missing := by
      intro _ nonempty
      exact length_pos_iff.mpr nonempty
    succeeded := nofun
    failed := nofun
    revoked := nofun
    awaited := by
      intro i
      by_cases inside : i < queries.length
      · rw [stage_ofQueries inside]
        exact mem_append_right _ (mem_map.mpr ⟨i, mem_range.mpr inside, rfl⟩)
      · rw [stage_of_length_le (by omega)]
        trivial
    reports := by
      have none : (ofQueries places queries).count isDone = 0 := by
        simp [count, ofQueries, isDone, Function.comp_def]
      rw [none, countP_append, quiet]
      simp [ofQueries, Function.comp_def]
    ended := fun i member => absurd member (silent i)
    unreported := by
      intro _ i inside ending done
      rw [stage_ofQueries (length ▸ inside)] at done
      cases done }

end Wave

end Crosstab
