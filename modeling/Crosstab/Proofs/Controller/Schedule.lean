import Crosstab.Proofs.Controller.Order
import Mathlib.Data.List.Perm.Basic

/-!
# Schedules

What happens to a controller, one move after the other, with the turns that are due taken in any
order. What a move does to one task is told by `Task.Moved`.
-/
namespace Crosstab

open List Controller

/-- What may happen to a controller. -/
inductive Move where
  | submit (document form : Value)
  | call (document form : Value)
  /-- The turn at some place of the queue is taken. -/
  | turn (place : Nat)
  | openGate
  | closeGate
  /-- Time runs out for the queries whose answers are held back. -/
  | expire

namespace Task

/-- What a move can do to a task and to the turns that are due for it. Only a task that may be revoked
is, and only where time may run out, it does. -/
inductive Moved (settings : Settings) (gives : GroupingQuery → Ending → Prop) (revocable expirable : Prop)
    (id : Nat) (task : Task) (due : List Turn) : Task → List Turn → Prop
  | rest {later} (same : due.Perm later) : Moved settings gives revocable expirable id task due task later
  | turn {turn rest next new} (taken : due.Perm (turn :: rest))
    (turned : task.Turned settings gives id turn next new) :
    Moved settings gives revocable expirable id task due next (rest ++ new)
  | revoke {next new} (allowed : revocable) (revokes : task.Revokes id next new) :
    Moved settings gives revocable expirable id task due next (due ++ new)
  | unhold :
    Moved settings gives revocable expirable id task due { task with wave := task.wave.unhold.1 }
      (due ++ task.wave.unhold.2.map fun turn => .wave id turn.1 turn.2)
  | expire (allowed : expirable) :
    Moved settings gives revocable expirable id task due
      { task with wave := (task.wave.expire (Request.timeoutFailure settings)).1 }
      (due ++ (task.wave.expire (Request.timeoutFailure settings)).2.map
        fun turn => .wave id turn.1 turn.2)

variable {settings : Settings} {gives : GroupingQuery → Ending → Prop} {revocable expirable : Prop}
  {id : Nat} {task next : Task} {due later : List Turn}

private theorem Orderly.moved (orderly : task.Orderly id due)
    (moved : task.Moved settings gives revocable expirable id due next later) :
    next.Orderly id later := by
  cases moved with
  | rest same => exact orderly.of_perm same
  | turn taken turned => exact (orderly.of_perm taken).turned turned
  | revoke _ revokes => exact orderly.revokes revokes
  | unhold => exact orderly.sweep fun inquiry => Stage.sweeps_unhold inquiry.stage
  | expire _ => exact orderly.sweep fun inquiry => Stage.sweeps_expire _ inquiry.stage

end Task

namespace Controller

variable {ε : Type} [Answerer ε] {controller : Controller ε} {id : Nat} {task : Task}

/-- A controller that has not served anything. -/
def fresh (executor : ε) (pace : Pace) (settings : Settings) (known : Option Schema) : Controller ε where
  executor
  pace
  settings
  knownSchema := known

section

variable (controller)

def without (place : Nat) : Controller ε :=
  { controller with queue := controller.queue.eraseIdx place }

def move : Move → Controller ε
  | .submit document form => controller.submit document form
  | .call document form => controller.call document form
  | .turn place =>
    match controller.queue[place]? with
    | some turn => (controller.without place).take turn
    | none => controller
  | .openGate => controller.openGate
  | .closeGate => { controller with gateOpen := false }
  | .expire => controller.expire

/-- The moves of a schedule, one after the other. -/
def follow (schedule : List Move) : Controller ε :=
  schedule.foldl move controller

def due (id : Nat) : List Turn :=
  controller.queue.filter fun turn => turn.task == id

end

/-! ### Changes of one task -/

variable {revised : Controller ε} {changed : Nat} {next : Task} {new : List Turn}

theorem Revised.task?_self (change : controller.Revised revised id next new)
    (there : controller.task? id = some task) : revised.task? id = some next := by
  obtain ⟨inside, _⟩ := List.getElem?_eq_some_iff.mp there
  rw [task?, change.tasks, List.getElem?_set_self inside]

theorem Revised.due_self (change : controller.Revised revised id next new)
    (own : ∀ turn ∈ new, turn.task = id) : revised.due id = controller.due id ++ new := by
  have all : (new.filter fun turn => turn.task == id) = new :=
    filter_eq_self.mpr fun turn member => by simpa using own turn member
  rw [due, change.queue, filter_append, all, due]

theorem Revised.task?_of_ne (change : controller.Revised revised changed next new)
    (different : id ≠ changed) : revised.task? id = controller.task? id := by
  rw [task?, change.tasks, getElem?_set_ne different.symm, task?]

theorem Revised.due_of_ne (change : controller.Revised revised changed next new)
    (own : ∀ turn ∈ new, turn.task = changed) (different : id ≠ changed) :
    revised.due id = controller.due id := by
  have none : (new.filter fun turn => turn.task == id) = [] :=
    filter_eq_nil_iff.mpr fun turn member => by simp [own turn member, different.symm]
  rw [due, change.queue, filter_append, none, append_nil, due]

private theorem filter_flatMap_zipIdx (turns : Task → Turns) (tasks : List Task) (first id : Nat) :
    ((tasks.zipIdx first).flatMap fun entry =>
        (turns entry.1).map fun turn => Turn.wave entry.2 turn.1 turn.2).filter
          (fun turn => turn.task == first + id) =
      (tasks[id]?.elim [] turns).map fun turn => Turn.wave (first + id) turn.1 turn.2 := by
  induction tasks generalizing first id with
  | nil => simp
  | cons task others ih =>
    have head (id : Nat) : ((turns task).map fun turn => Turn.wave first turn.1 turn.2).filter
        (fun turn => turn.task == first + id) =
          if id = 0 then (turns task).map fun turn => Turn.wave first turn.1 turn.2 else [] := by
      rw [filter_map]
      simp only [Function.comp_def, Turn.task]
      split
      next zero => simp [zero]
      next later => simp [later]
    rw [zipIdx_cons, flatMap_cons, filter_append, head]
    cases id with
    | zero =>
      have none : ((others.zipIdx (first + 1)).flatMap fun entry =>
          (turns entry.1).map fun turn => Turn.wave entry.2 turn.1 turn.2).filter
            (fun turn => turn.task == first + 0) = [] := by
        rw [filter_eq_nil_iff]
        intro turn member
        obtain ⟨⟨task, i⟩, there, listed⟩ := mem_flatMap.mp member
        obtain ⟨_, _, rfl⟩ := mem_map.mp listed
        have beyond := le_snd_of_mem_zipIdx there
        simp only [Turn.task, beq_iff_eq]
        omega
      rw [none]
      simp
    | succ id =>
      have tail := ih (first + 1) id
      rw [show first + 1 + id = first + (id + 1) by omega] at tail
      rw [tail]
      simp

omit [Answerer ε] in
theorem eachWave_spec (controller : Controller ε) (change : Wave → Wave × Turns) (id : Nat) :
    (controller.eachWave change).task? id =
        (controller.task? id).map (fun task => { task with wave := (change task.wave).1 }) ∧
      (controller.eachWave change).due id = controller.due id ++
        ((controller.task? id).elim [] fun task => (change task.wave).2).map fun turn =>
          .wave id turn.1 turn.2 := by
  have listed := filter_flatMap_zipIdx (fun task => (change task.wave).2) controller.tasks 0 id
  rw [Nat.zero_add] at listed
  refine ⟨by simp [task?, eachWave], ?_⟩
  simp only [due, eachWave, filter_append]
  exact congrArg (_ ++ ·) listed

theorem take_of_none (controller : Controller ε) (turn : Turn)
    (absent : controller.task? turn.task = none) : controller.take turn = controller := by
  cases turn with
  | wake id => rfl
  | start id | wave id _ _ | resume id =>
    replace absent : controller.task? id = none := absent
    simp only [take, absent]

theorem take_frame (controller : Controller ε) (turn : Turn) {id : Nat} (own : turn.task ≠ id) :
    (controller.take turn).task? id = controller.task? id ∧
      (controller.take turn).due id = controller.due id := by
  cases there : controller.task? turn.task with
  | none =>
    rw [controller.take_of_none turn there]
    exact ⟨rfl, rfl⟩
  | some task =>
    obtain ⟨next, new, turned, revised⟩ := controller.take_turned turn there
    exact ⟨revised.task?_of_ne own.symm, revised.due_of_ne turned.task_of_mem own.symm⟩

omit [Answerer ε] in
theorem due_perm_of_taken {place : Nat} {turn : Turn} (taken : controller.queue[place]? = some turn)
    (id : Nat) : (controller.due id).Perm
      (if turn.task = id then turn :: (controller.without place).due id
        else (controller.without place).due id) := by
  obtain ⟨inside, rfl⟩ := List.getElem?_eq_some_iff.mp taken
  have all := (List.getElem_cons_eraseIdx_perm inside).symm.filter fun turn => turn.task == id
  rw [filter_cons] at all
  simpa only [due, without, beq_iff_eq] using all

section

variable (document form : Value) (there : controller.task? id = some task)
include there

private theorem turn_moved {place : Nat} (revocable expirable : Prop) :
    ∃ next, (controller.move (.turn place)).task? id = some next ∧
      task.Moved controller.settings controller.Gives revocable expirable id (controller.due id) next
        ((controller.move (.turn place)).due id) := by
  cases taken : controller.queue[place]? with
  | none =>
    simp only [move, taken]
    exact ⟨task, there, .rest (.refl _)⟩
  | some turn =>
    simp only [move, taken]
    have remaining := due_perm_of_taken taken id
    by_cases own : turn.task = id
    · subst own
      rw [if_pos rfl] at remaining
      obtain ⟨next, new, turned, revised⟩ := (controller.without place).take_turned turn there
      refine ⟨next, revised.task?_self there, ?_⟩
      rw [revised.due_self turned.task_of_mem]
      exact .turn remaining turned
    · rw [if_neg own] at remaining
      obtain ⟨same, kept⟩ := (controller.without place).take_frame turn own
      exact ⟨task, same.trans there, .rest (kept ▸ remaining)⟩

omit [Answerer ε] in
theorem append_spec (added : Task) (new : List Turn)
    (own : ∀ turn ∈ new, turn.task = controller.tasks.length) :
    (controller.tasks ++ [added])[id]? = some task ∧
      ((controller.queue ++ new).filter fun turn => turn.task == id) = controller.due id := by
  obtain ⟨inside, _⟩ := List.getElem?_eq_some_iff.mp there
  constructor
  · rw [List.getElem?_append_left inside]
    exact there
  · have none : (new.filter fun turn => turn.task == id) = [] := by
      refine filter_eq_nil_iff.mpr fun turn member => ?_
      have last := own turn member
      simp only [beq_iff_eq]
      omega
    rw [filter_append, none, append_nil, due]

theorem submit_latest (latest : controller.latest = some id) : ∃ next new, task.Revokes id next new ∧
      (controller.submit document form).task? id = some next ∧
        (controller.submit document form).due id = controller.due id ++ new := by
  obtain ⟨next, new, revokes, revised⟩ := revoke_revokes there
  obtain ⟨stays, late⟩ := append_spec (revised.task?_self there) { document, form }
    [.start (controller.revoke id).tasks.length] (by simp [Turn.task])
  refine ⟨next, new, revokes, ?_, ?_⟩
  · simp only [submit, latest]
    exact stays
  · simp only [submit, latest]
    exact late.trans (revised.due_self revokes.task_of_mem)

theorem submit_other (earlier : controller.latest ≠ some id) :
    (controller.submit document form).task? id = some task ∧
      (controller.submit document form).due id = controller.due id := by
  have prior : (controller.latest.elim controller controller.revoke).task? id = some task ∧
      (controller.latest.elim controller controller.revoke).due id = controller.due id := by
    obtain same | ⟨other, _, _, _, latest, _, revokes, revised⟩ := controller.revoke_latest_cases
    · rw [same]
      exact ⟨there, rfl⟩
    · have different : id ≠ other := by
        rintro rfl
        exact earlier latest
      exact ⟨(revised.task?_of_ne different).trans there,
        revised.due_of_ne revokes.task_of_mem different⟩
  obtain ⟨stays, late⟩ := append_spec prior.1 { document, form }
    [.start (controller.latest.elim controller controller.revoke).tasks.length] (by simp [Turn.task])
  exact ⟨stays, late.trans prior.2⟩

private theorem call_spec : (controller.call document form).task? id = some task ∧
      (controller.call document form).due id = controller.due id := by
  have different : id ≠ controller.tasks.length := Nat.ne_of_lt (List.getElem?_eq_some_iff.mp there).1
  obtain ⟨stays, late⟩ := append_spec there { document, form } [] (by simp)
  rw [append_nil] at late
  obtain ⟨next, new, arrives, revised⟩ := startTask_arrives
    { controller with tasks := controller.tasks ++ [{ document, form }] } controller.tasks.length
    { document, form }
  exact ⟨(revised.task?_of_ne different).trans stays,
    (revised.due_of_ne arrives.task_of_mem different).trans late⟩

end

theorem move_moved (move : Move) (there : controller.task? id = some task) : ∃ next,
    (controller.move move).task? id = some next ∧
      task.Moved controller.settings controller.Gives
        ((∃ document form, move = .submit document form) ∧ controller.latest = some id) (move = .expire)
        id (controller.due id) next ((controller.move move).due id) := by
  cases move with
  | submit document form =>
    by_cases latest : controller.latest = some id
    · obtain ⟨next, new, revokes, after, late⟩ := submit_latest document form there latest
      refine ⟨next, after, ?_⟩
      rw [show (controller.move (.submit document form)).due id = _ from late]
      exact .revoke ⟨⟨document, form, rfl⟩, latest⟩ revokes
    · obtain ⟨after, late⟩ := submit_other document form there latest
      exact ⟨task, after, .rest (late ▸ .refl _)⟩
  | call document form =>
    obtain ⟨after, late⟩ := call_spec document form there
    exact ⟨task, after, .rest (late ▸ .refl _)⟩
  | turn place => exact turn_moved there _ _
  | openGate =>
    simp only [move, openGate]
    split
    next gated =>
      let opened := { controller with gateOpen := true }
      obtain ⟨after, late⟩ := opened.eachWave_spec Wave.unhold id
      rw [show opened.task? id = _ from there] at after late
      rw [late]
      exact ⟨_, after, .unhold⟩
    next => exact ⟨task, there, .rest (.refl _)⟩
  | closeGate => exact ⟨task, there, .rest (.refl _)⟩
  | expire =>
    obtain ⟨after, late⟩ :=
      eachWave_spec controller (Wave.expire (Request.timeoutFailure controller.settings)) id
    rw [there] at after late
    refine ⟨_, after, ?_⟩
    rw [show (controller.move .expire).due id = _ from late]
    exact .expire rfl

/-! ### Controllers in order -/

/-- All tasks are in order, and nothing is due for others. -/
structure Orderly (controller : Controller ε) : Prop where
  tasks : ∀ id task, controller.task? id = some task → task.Orderly id (controller.due id)
  turns : ∀ id, controller.task? id = none → controller.due id = []

omit [Answerer ε] in
private theorem eachWave_absent (change : Wave → Wave × Turns) (absent : controller.task? id = none) :
    (controller.eachWave change).task? id = none ∧
      (controller.eachWave change).due id = controller.due id := by
  simpa [absent] using controller.eachWave_spec change id

private theorem submit_absent (document form : Value) (absent : controller.task? id = none)
    (quiet : controller.due id = []) :
    let after := controller.submit document form
    (after.task? id = none ∧ after.due id = []) ∨
      (id = controller.tasks.length ∧ after.task? id = some { document, form } ∧
        after.due id = [.start id]) := by
  have beyond : controller.tasks.length ≤ id := getElem?_eq_none_iff.mp absent
  have kept : (controller.latest.elim controller controller.revoke).tasks.length = controller.tasks.length ∧
      (controller.latest.elim controller controller.revoke).due id = [] := by
    obtain same | ⟨other, _, _, _, _, there, revokes, revised⟩ := controller.revoke_latest_cases
    · rw [same]
      exact ⟨rfl, quiet⟩
    · have different : id ≠ other := by
        rintro rfl
        cases absent.symm.trans there
      exact ⟨by rw [revised.tasks, length_set],
        (revised.due_of_ne revokes.task_of_mem different).trans quiet⟩
  simp only [submit, due, task?] at kept ⊢
  obtain ⟨length, late⟩ := kept
  rw [filter_append, late, length]
  by_cases last : id = controller.tasks.length
  · -- The place is that of the new task.
    refine .inr ⟨last, ?_, ?_⟩
    · rw [last, ← length, getElem?_concat_length]
    · simp [last, Turn.task]
  · refine .inl ⟨?_, ?_⟩
    · rw [getElem?_eq_none_iff, length_append, length_singleton]
      omega
    · simp [Turn.task, Ne.symm last]

private theorem turn_absent (place : Nat) (absent : controller.task? id = none)
    (quiet : controller.due id = []) :
    (controller.move (.turn place)).task? id = none ∧ (controller.move (.turn place)).due id = [] := by
  cases taken : controller.queue[place]? with
  | none =>
    simp only [move, taken]
    exact ⟨absent, quiet⟩
  | some turn =>
    have remaining := due_perm_of_taken taken id
    simp only [move, taken]
    rw [quiet] at remaining
    by_cases own : turn.task = id
    · rw [if_pos own] at remaining
      exact absurd remaining.nil_eq (cons_ne_nil _ _).symm
    · rw [if_neg own] at remaining
      obtain ⟨same, kept⟩ := (controller.without place).take_frame turn own
      exact ⟨same.trans absent, kept.trans remaining.nil_eq.symm⟩

/-- A move gives a new task the next free place, and leaves all others empty. -/
theorem move_absent (orderly : controller.Orderly) (move : Move) (absent : controller.task? id = none) :
    ((controller.move move).task? id = none ∧ (controller.move move).due id = []) ∨
    ∃ document form, id = controller.tasks.length ∧
      ((move = .submit document form ∧ (controller.move move).task? id = some { document, form } ∧
        (controller.move move).due id = [.start id]) ∨
      ∃ next, move = .call document form ∧ (controller.move move).task? id = some next ∧
        Task.Arrives controller.settings id { document, form }
          (Except.bind controller.schema.2 fun schema =>
            Progress.start schema controller.settings document) next ((controller.move move).due id)) := by
  have none := orderly.turns id absent
  cases move with
  | submit document form =>
    rcases submit_absent document form absent none with empty | ⟨last, there, late⟩
    · exact .inl empty
    · exact .inr ⟨document, form, last, .inl ⟨rfl, there, late⟩⟩
  | call document form =>
    obtain ⟨next, new, arrives, revised⟩ := startTask_arrives
      { controller with tasks := controller.tasks ++ [{ document, form }] } controller.tasks.length
      { document, form }
    by_cases last : id = controller.tasks.length
    · subst last
      refine .inr ⟨document, form, rfl, .inr ⟨next, rfl, ?_, ?_⟩⟩
      · exact revised.task?_self (getElem?_concat_length ..)
      · have late := (revised.due_self arrives.task_of_mem).trans (congrArg (· ++ new) none)
        rw [show (controller.move (.call document form)).due _ = _ from late]
        rw [schema_snd] at arrives ⊢
        exact arrives
    · have beyond : controller.tasks.length ≤ id := getElem?_eq_none_iff.mp absent
      refine .inl ⟨?_, ?_⟩
      · refine (revised.task?_of_ne last).trans (getElem?_eq_none_iff.mpr ?_)
        rw [length_append, length_singleton]
        omega
      · exact (revised.due_of_ne arrives.task_of_mem last).trans none
  | turn place => exact .inl (turn_absent place absent none)
  | openGate =>
    refine .inl ?_
    simp only [move, openGate]
    split
    next gated => exact (eachWave_absent _ absent).imp_right fun same => same.trans none
    next => exact ⟨absent, none⟩
  | closeGate => exact .inl ⟨absent, none⟩
  | expire => exact .inl ((eachWave_absent _ absent).imp_right fun same => same.trans none)

theorem Orderly.move (orderly : controller.Orderly) (move : Move) : (controller.move move).Orderly where
  tasks := by
    intro id task after
    cases before : controller.task? id with
    | some earlier =>
      obtain ⟨next, there, moved⟩ := move_moved move before
      cases there.symm.trans after
      exact (orderly.tasks id earlier before).moved moved
    | none =>
      rcases move_absent orderly move before with
        ⟨absent, _⟩ | ⟨document, form, _, ⟨_, there, late⟩ | ⟨next, _, there, arrives⟩⟩
      · cases absent.symm.trans after
      · cases there.symm.trans after
        rw [late]
        exact Task.orderly_submitted document form
      · cases there.symm.trans after
        exact Task.orderly_called arrives
  turns := by
    intro id after
    cases before : controller.task? id with
    | some earlier =>
      obtain ⟨next, there, _⟩ := move_moved move before
      cases there.symm.trans after
    | none =>
      rcases move_absent orderly move before with ⟨_, quiet⟩ | ⟨_, _, _, ⟨_, there, _⟩ | ⟨_, _, there, _⟩⟩
      · exact quiet
      · cases there.symm.trans after
      · cases there.symm.trans after

end Controller

end Crosstab
