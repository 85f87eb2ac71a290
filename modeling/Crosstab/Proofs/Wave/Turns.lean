import Crosstab.Proofs.Wave.Places

/-!
# What a turn does to a wave

What a turn of a wave can do: `Stage.Goes` tells how it moves its own query, `Wave.Turned` adds what
becomes of the others. When queries are withdrawn or answered together, no place is taken or given
away.
-/
namespace Crosstab

namespace Stage

/-- A turn of this kind moves the query on. -/
def heeds : Due → Stage → Bool
  | .query, fresh | .query, placed | .query, withdrawn _ | .query, put true => true
  | .query, recalled _ | .query, settling _ => true
  | .answer, put _ | .answer, expiring | .answer, recalling _ => true
  | .notice, answered _ | .notice, recalling _ => true
  | _, _ => false

/-- The query will end by itself: it waits neither for a place nor for an answer. -/
def isEnding : Stage → Bool
  | withdrawn _ | put true | recalled _ | recalling _ | settling _ | done _ => true
  | _ => false

/-- What has to be due so that the query can go on. Only a query in line, one whose answer is held
back and one that has ended depend on nothing that is due. -/
def Awaited (due : Due → Prop) : Stage → Prop
  | fresh | placed | withdrawn _ | recalled _ | settling _ => due .query
  | put false | expiring => due .answer
  | put true => due .query ∧ due .answer
  | recalling _ => due .answer ∨ due .notice
  | answered _ => due .notice
  | waiting | held | done _ => True

variable {due : Due → Prop} {stage : Stage}

theorem Awaited.mono {more : Due → Prop} (awaited : stage.Awaited due) (kept : ∀ d, due d → more d)
    : stage.Awaited more := by
  cases stage with
  | put withdrawn =>
    cases withdrawn with
    | false => exact kept _ awaited
    | true => exact ⟨kept _ awaited.1, kept _ awaited.2⟩
  | recalling ending => exact awaited.imp (kept _) (kept _)
  | fresh | placed | withdrawn _ | expiring | recalled _ | answered _ | settling _ =>
    exact kept _ awaited
  | waiting | held | done _ => trivial

private theorem Awaited.of_not_heeds {taken : Due} (idle : stage.heeds taken = false)
    (awaited : stage.Awaited fun d => d = taken ∨ due d) : stage.Awaited due := by
  cases stage with
  | put withdrawn => cases withdrawn <;> cases taken <;> simp_all [heeds, Awaited]
  | _ => cases taken <;> simp_all [heeds, Awaited]

/-- How a turn of some kind moves a query that holds a place and keeps it, and what comes due. The
executor gives the endings for which `gives` holds; `timeout` is the failure of a query whose time was
over when it was put. -/
inductive Shifts (gives : Ending → Prop) (timeout : Error) : Due → Stage → Stage → List Due → Prop
  | retract : Shifts gives timeout .query (put true) (recalling .withdrawn) []
  | callBack (ending) : Shifts gives timeout .query (recalled ending) (recalling ending) [.answer]
  | hold : Shifts gives timeout .answer (put false) held []
  | holdWithdrawn : Shifts gives timeout .answer (put true) (recalled .withdrawn) []
  | answer {ending} (given : gives ending) :
    Shifts gives timeout .answer (put false) (answered ending) [.notice]
  | answerWithdrawn {ending} (given : gives ending) :
    Shifts gives timeout .answer (put true) (settling ending) []
  | expire : Shifts gives timeout .answer expiring (answered (.outcome (.error timeout))) [.notice]
  | giveUp (ending) : Shifts gives timeout .answer (recalling ending) (recalling ending) [.notice]
  | notice (ending) : Shifts gives timeout .notice (answered ending) (settling ending) [.query]
  | noticeRecalled (ending) :
    Shifts gives timeout .notice (recalling ending) (settling ending) [.query]

namespace Shifts

variable {gives : Ending → Prop} {timeout : Error} {taken : Due} {stage next : Stage} {dues : List Due}
  (shifts : Shifts gives timeout taken stage next dues)
include shifts

private theorem isSeated : stage.isSeated := by
  cases shifts <;> rfl

theorem isSeated_next : next.isSeated := by
  cases shifts <;> rfl

theorem no_report : .report ∉ dues := by
  cases shifts <;> simp

private theorem awaited {due : Due → Prop} (awaited : stage.Awaited fun d => d = taken ∨ due d) :
    next.Awaited fun d => due d ∨ d ∈ dues := by
  cases shifts <;> simp_all [Awaited]

end Shifts

/-- How a query that was just given its place is put to the executor, and what comes due. -/
inductive Puts (limit : Settings.TimeLimit) : Stage → List Due → Prop
  | put (running : limit = .running) : Puts limit (put false) [.answer]
  | expire (expired : limit = .expired) : Puts limit expiring [.answer]
  | hold (unlimited : limit = .unlimited) : Puts limit held []

namespace Puts

variable {limit : Settings.TimeLimit} {stage : Stage} {dues : List Due}

theorem isSeated (puts : Puts limit stage dues) : stage.isSeated := by
  cases puts <;> rfl

theorem no_report (puts : Puts limit stage dues) : .report ∉ dues := by
  cases puts <;> simp

private theorem awaited (puts : Puts limit stage dues) (due : Due → Prop) :
    stage.Awaited fun d => due d ∨ d ∈ dues := by
  cases puts <;> simp [Awaited]

end Puts

/-- How a turn of some kind moves a query, and what comes due for it. -/
inductive Goes (limit : Settings.TimeLimit) (gives : Ending → Prop) (timeout : Error) :
    Due → Stage → Stage → List Due → Prop
  | idle {taken stage} (unheeded : stage.heeds taken = false) :
    Goes limit gives timeout taken stage stage []
  | wait : Goes limit gives timeout .query fresh waiting []
  | put {stage next dues} (admitted : stage = fresh ∨ stage = placed) (puts : Puts limit next dues) :
    Goes limit gives timeout .query stage next dues
  /-- Without a time limit the answer may come within the turn. -/
  | answerAtOnce {stage ending} (admitted : stage = fresh ∨ stage = placed)
    (unlimited : limit = .unlimited) (given : gives ending) :
    Goes limit gives timeout .query stage (done ending) [.report]
  | refuse {stage problem} (admitted : stage = fresh ∨ stage = placed)
    (malformed : limit = .malformed problem) (error : Error) :
    Goes limit gives timeout .query stage (done (.outcome (.error error))) [.report]
  | drop (holdsPlace : Bool) :
    Goes limit gives timeout .query (withdrawn holdsPlace) (done .withdrawn) [.report]
  | settle (ending : Ending) : Goes limit gives timeout .query (settling ending) (done ending) [.report]
  | shift {taken stage next dues} (shifts : Shifts gives timeout taken stage next dues) :
    Goes limit gives timeout taken stage next dues

namespace Goes

variable {limit : Settings.TimeLimit} {gives : Ending → Prop} {timeout : Error} {taken : Due}
  {stage next : Stage} {dues : List Due}

theorem awaited (goes : Goes limit gives timeout taken stage next dues) {due : Due → Prop}
    (awaited : stage.Awaited fun d => d = taken ∨ due d) :
    next.Awaited fun d => due d ∨ d ∈ dues := by
  cases goes with
  | idle unheeded => exact (awaited.of_not_heeds unheeded).mono fun _ => .inl
  | put _ puts => exact puts.awaited due
  | shift shifts => exact shifts.awaited awaited
  | wait | answerAtOnce _ _ _ | refuse _ _ _ | drop _ | settle _ => trivial

theorem report_mem_iff (goes : Goes limit gives timeout taken stage next dues) :
    .report ∈ dues ↔ stage.isDone = false ∧ next.isDone := by
  cases goes with
  | idle _ => simp
  | put admitted puts =>
    have seated := puts.isSeated
    have quiet := puts.no_report
    cases next <;> simp_all [isDone, isSeated, holdsPlace]
  | shift shifts =>
    have seated := shifts.isSeated_next
    have quiet := shifts.no_report
    cases next <;> simp_all [isDone, isSeated, holdsPlace]
  | wait | drop _ | settle _ => simp [isDone]
  | answerAtOnce admitted _ _ | refuse admitted _ _ => rcases admitted with rfl | rfl <;> simp [isDone]

/-- An end is final. -/
theorem done_stays {ending : Ending} (goes : Goes limit gives timeout taken (done ending) next dues) :
    next = done ending := by
  cases goes with
  | idle _ => rfl
  | put admitted _ | answerAtOnce admitted _ _ | refuse admitted _ _ => simp at admitted
  | shift shifts => cases shifts

theorem isEnding (goes : Goes limit gives timeout taken stage next dues)
    (ending : stage.isEnding) : next.isEnding := by
  cases goes with
  | idle _ => exact ending
  | put admitted _ | answerAtOnce admitted _ _ | refuse admitted _ _ =>
    rcases admitted with rfl | rfl <;> cases ending
  | shift shifts => cases shifts <;> simp_all [Stage.isEnding]
  | wait => cases ending
  | drop _ | settle _ => rfl

end Goes

end Stage

namespace Wave

variable {wave : Wave} {index : Nat}

/-- What a turn for a query can do to its wave, and what comes due. -/
structure Turned (limit : Settings.TimeLimit) (gives : Ending → Prop) (timeout : Error) (index : Nat)
    (taken : Due) (wave changed : Wave) (turns : Turns) : Prop
    extends Frame index wave changed turns where
  own : ∃ dues, Stage.Goes limit gives timeout taken (wave.stage index) (changed.stage index) dues ∧
    ∀ due, (index, due) ∈ turns ↔ due ∈ dues
  line : wave.Line → changed.Line
  /-- A query is only put when it was given a place or takes a free one. -/
  room : wave.stage index = .fresh →
    changed.stage index = .fresh ∨ changed.stage index = .waiting ∨ wave.free ≠ some 0

section

variable {limit : Settings.TimeLimit} {gives : Ending → Prop} {timeout : Error} {taken : Due}

variable {stage next : Stage} {dues : List Due} {ending : Ending} {admitted : Wave}
  {turns : Turns}

theorem turned_idle (here : wave.stage index = stage) (unheeded : stage.heeds taken = false) :
    Turned limit gives timeout index taken wave wave [] where
  toFrame := .refl
  own := ⟨[], .idle (here ▸ unheeded), by simp⟩
  line := id
  room := .inl

theorem turned_shift (here : wave.stage index = stage)
    (shifts : Stage.Shifts gives timeout taken stage next dues) :
    Turned limit gives timeout index taken wave (wave.setStage index next)
      (dues.map fun due => (index, due)) := by
  subst here
  exact {
    toFrame := frame_keep shifts.isSeated shifts.isSeated_next shifts.no_report
    own := by
      refine ⟨dues, ?_, by simp⟩
      rw [stage_setStage_self (lt_length_of_seated shifts.isSeated)]
      exact .shift shifts
    line := fun line => line.keep shifts.isSeated shifts.isSeated_next
    room := fun fresh => absurd (fresh ▸ shifts.isSeated) nofun }

private theorem turned_settle (here : wave.stage index = stage) (seated : stage.isSeated)
    (goes : Stage.Goes limit gives timeout taken stage (.done ending) [.report]) :
    Turned limit gives timeout index taken wave (wave.settle index ending).1
      (wave.settle index ending).2 := by
  subst here
  exact {
    toFrame := frame_settle seated ending
    own := ⟨[.report], by rw [stage_settle seated]; exact goes, fun due => mem_settle_iff seated⟩
    line := fun line => line.settle seated ending
    room := fun fresh => absurd (fresh ▸ seated) nofun }

/-- A query is admitted: it has its place and is about to be put to the executor. -/
structure Admitted (index : Nat) (wave admitted : Wave) (turns : Turns) : Prop
    extends Frame index wave admitted turns where
  start : wave.stage index = .fresh ∨ wave.stage index = .placed
  stage : admitted.stage index = .put false
  none : ∀ due, (index, due) ∉ turns
  line : wave.Line → admitted.Line
  room : wave.stage index = .fresh → wave.free ≠ some 0

theorem Admitted.put (enters : Admitted index wave admitted turns)
    (puts : Stage.Puts limit next dues) :
    Turned limit gives timeout index .query wave (admitted.setStage index next)
      (turns ++ dues.map fun due => (index, due)) := by
  have seated : (admitted.stage index).isSeated := by rw [enters.stage]; rfl
  exact {
    toFrame := enters.toFrame.trans (frame_keep seated puts.isSeated puts.no_report)
    own := by
      refine ⟨dues, ?_, fun due => by simp [enters.none due]⟩
      rw [stage_setStage_self (lt_length_of_seated seated)]
      exact .put enters.start puts
    line := fun line => (enters.line line).keep seated puts.isSeated
    room := fun fresh => .inr (.inr (enters.room fresh)) }

theorem Admitted.settle (enters : Admitted index wave admitted turns)
    (goes : Stage.Goes limit gives timeout .query (wave.stage index) (.done ending) [.report]) :
    Turned limit gives timeout index .query wave (admitted.settle index ending).1
      (turns ++ (admitted.settle index ending).2) := by
  have seated : (admitted.stage index).isSeated := by rw [enters.stage]; rfl
  exact {
    toFrame := enters.toFrame.trans (frame_settle seated ending)
    own := by
      refine ⟨[.report], ?_, fun due => ?_⟩
      · rw [stage_settle seated]
        exact goes
      · rw [List.mem_append, mem_settle_iff seated]
        exact or_iff_right (enters.none due)
    line := fun line => (enters.line line).settle seated ending
    room := fun fresh => .inr (.inr (enters.room fresh)) }

/-- A turn of a query, unless the query is now put to the executor. -/
theorem queryTurn_turned (stays : (wave.queryTurn index).2.2 = false) :
    Turned limit gives timeout index .query wave (wave.queryTurn index).1 (wave.queryTurn index).2.1 := by
  cases stage : wave.stage index with
  | fresh =>
    cases room : wave.admits with
    | true => simp [queryTurn, stage, room] at stays
    | false =>
      -- No place is free, and the query joins the line.
      have inside : index < wave.inquiries.length := lt_length_of_stage (by simp [stage])
      simp only [queryTurn, stage, room, Bool.false_eq_true, if_false]
      exact {
        toFrame := frame_setStage inside (by simp [stage, Stage.holdsPlace]) (by simp [stage, Stage.isDone])
          List.not_mem_nil
        own := ⟨[], by rw [stage, stage_setStage_self inside]; exact .wait, by simp⟩
        line := fun line => line.wait stage room
        room := fun _ => .inr (.inl (stage_setStage_self inside)) }
  | placed => simp [queryTurn, stage] at stays
  | withdrawn holds =>
    cases holds with
    | false =>
      -- It gives no place back, so nobody else is let in.
      have inside : index < wave.inquiries.length := lt_length_of_stage (by simp [stage])
      simp only [queryTurn, stage]
      exact {
        toFrame := frame_drop stage .withdrawn
        own := ⟨[.report], by rw [stage, stage_setStage_self inside]; exact .drop false, by simp⟩
        line := fun line => line.setStage inside (by simp [stage, Stage.isInLine]) rfl
        room := fun fresh => absurd (stage.symm.trans fresh) (by simp) }
    | true =>
      simp only [queryTurn, stage]
      exact turned_settle stage rfl (.drop true)
  | settling ending =>
    simp only [queryTurn, stage]
    exact turned_settle stage rfl (.settle ending)
  | recalled ending =>
    simp only [queryTurn, stage]
    exact turned_shift stage (.callBack ending)
  | put withdrawn =>
    cases withdrawn with
    | false =>
      simp only [queryTurn, stage]
      exact turned_idle stage rfl
    | true =>
      simp only [queryTurn, stage]
      exact turned_shift stage .retract
  | waiting | expiring | held | recalling _ | answered _ | done _ =>
    simp only [queryTurn, stage]
    exact turned_idle stage rfl

theorem queryTurn_admitted (puts : (wave.queryTurn index).2.2) :
    Admitted index wave (wave.queryTurn index).1 (wave.queryTurn index).2.1 := by
  cases stage : wave.stage index with
  | fresh =>
    cases room : wave.admits with
    | false => simp [queryTurn, stage, room] at puts
    | true =>
      simp only [queryTurn, stage, room, if_true]
      exact {
        toFrame := frame_enter stage room
        start := .inl stage
        stage := stage_setStage_self (lt_length_of_stage (by simp [stage]))
        none := fun _ => List.not_mem_nil
        line := fun _ => .enter room stage
        room := fun _ => by
          simp only [admits, Bool.and_eq_true, bne_iff_ne] at room
          exact room.1 }
  | placed =>
    have own : (wave.setStage index (.put false)).stage index = .put false :=
      stage_setStage_self (lt_length_of_stage (by simp [stage]))
    have out : ((wave.setStage index (.put false)).stage index).isInLine = false := by rw [own]; rfl
    have passed := passPlace_of_out out
    simp only [queryTurn, stage]
    exact {
      toFrame := frame_follow stage
      start := .inr stage
      stage := passed.1.trans own
      none := passed.2
      line := fun line => line.follow stage
      room := fun fresh => absurd (stage.symm.trans fresh) (by simp) }
  | put withdrawn => cases withdrawn <;> simp [queryTurn, stage] at puts
  | withdrawn holds => cases holds <;> simp [queryTurn, stage] at puts
  | _ => simp [queryTurn, stage] at puts

theorem noticeTurn_turned :
    Turned limit gives timeout index .notice wave (wave.noticeTurn index).1 (wave.noticeTurn index).2 := by
  cases stage : wave.stage index with
  | answered ending =>
    simp only [noticeTurn, stage]
    exact turned_shift stage (.notice ending)
  | recalling ending =>
    simp only [noticeTurn, stage]
    exact turned_shift stage (.noticeRecalled ending)
  | _ =>
    simp only [noticeTurn, stage]
    exact turned_idle stage rfl

end

end Wave

/-! ### Sweeps -/

namespace Stage

/-- A change of a query that is a part of a sweep, and what comes due by it. -/
structure Sweeps (stage : Stage) (change : Stage × List Due) : Prop where
  holdsPlace : change.1.holdsPlace = stage.holdsPlace
  isDone : change.1.isDone = stage.isDone
  final : ∀ ending, stage = .done ending → change.1 = .done ending
  isEnding : stage.isEnding = true → change.1.isEnding = true
  no_report : .report ∉ change.2
  awaited : ∀ due : Due → Prop, stage.Awaited due → change.1.Awaited fun d => due d ∨ d ∈ change.2

theorem sweeps_withdraw (stage : Stage) : Sweeps stage stage.withdraw := by
  rcases stage with _ | _ | _ | _ | (_ | _) | _ | _ | _ | _ | _ | _ | _ <;>
    exact ⟨rfl, rfl, by simp [withdraw], by simp [withdraw, Stage.isEnding], by simp [withdraw],
      by intro due awaited; simp_all [withdraw, Awaited]⟩

theorem sweeps_unhold (stage : Stage) : Sweeps stage stage.unhold := by
  rcases stage with _ | _ | _ | _ | (_ | _) | _ | _ | _ | _ | _ | _ | _ <;>
    exact ⟨rfl, rfl, by simp [unhold], by simp [unhold, Stage.isEnding], by simp [unhold],
      by intro due awaited; simp_all [unhold, Awaited]⟩

theorem sweeps_expire (failure : Error) (stage : Stage) : Sweeps stage (stage.expire failure) := by
  rcases stage with _ | _ | _ | _ | (_ | _) | _ | _ | _ | _ | _ | _ | _ <;>
    exact ⟨rfl, rfl, by simp [expire], by simp [expire, Stage.isEnding], by simp [expire],
      by intro due awaited; simp_all [expire, Awaited]⟩

private theorem isEnding_withdraw (stage : Stage) : stage.withdraw.1.isEnding := by
  rcases stage with _ | _ | _ | _ | (_ | _) | _ | _ | _ | _ | _ | _ | _ <;> rfl

end Stage

namespace Wave

variable {wave : Wave} {change : Inquiry → Stage × List Due}

theorem getElem?_sweep (i : Nat) : (wave.sweep change).1.inquiries[i]? =
    wave.inquiries[i]?.map fun inquiry => { inquiry with stage := (change inquiry).1 } := by
  simp [sweep]

@[simp] theorem length_sweep : (wave.sweep change).1.inquiries.length = wave.inquiries.length := by
  simp [sweep]

@[simp] theorem queries_sweep : (wave.sweep change).1.queries = wave.queries := by
  simp [sweep, queries, Function.comp_def]

theorem stage_sweep {i : Nat} {inquiry : Inquiry} (there : wave.inquiries[i]? = some inquiry) :
    (wave.sweep change).1.stage i = (change inquiry).1 := by
  simp [stage, getElem?_sweep, there]

theorem mem_sweep_iff {i : Nat} {due : Due} : (i, due) ∈ (wave.sweep change).2 ↔
    ∃ inquiry, wave.inquiries[i]? = some inquiry ∧ due ∈ (change inquiry).2 := by
  simp only [sweep, List.mem_flatMap, List.mem_map, Prod.mk.injEq, Prod.exists,
    List.mem_zipIdx_iff_getElem?]
  constructor
  · rintro ⟨inquiry, index, there, d, member, rfl, rfl⟩
    exact ⟨inquiry, there, member⟩
  · rintro ⟨inquiry, there, member⟩
    exact ⟨inquiry, i, there, due, member, rfl, rfl⟩

theorem count_sweep {test : Stage → Bool}
    (same : ∀ inquiry, test (change inquiry).1 = test inquiry.stage) :
    (wave.sweep change).1.count test = wave.count test := by
  simp only [count, sweep, List.countP_map, Function.comp_def, same]

theorem places_sweep (sweeps : ∀ inquiry, Stage.Sweeps inquiry.stage (change inquiry)) :
    (wave.sweep change).1.places = wave.places := by
  rw [places, places, count_sweep fun inquiry => (sweeps inquiry).holdsPlace]
  rfl

theorem isEnding_withdrawAll (i : Nat) : (wave.withdrawAll.1.stage i).isEnding := by
  cases there : wave.inquiries[i]? with
  | none => simp [stage, withdrawAll, getElem?_sweep, there, Stage.isEnding]
  | some inquiry =>
    rw [withdrawAll, stage_sweep there]
    exact Stage.isEnding_withdraw inquiry.stage

end Wave

end Crosstab
