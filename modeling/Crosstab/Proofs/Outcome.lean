import Crosstab.Error
import Mathlib.Data.List.Forall2

/-!
# Successful computations

What the success of a computation says about its parts. Traversals succeed exactly where every step
does.
-/
namespace Crosstab

open List

variable {α β : Type}

/-! ### Related lists -/

variable {R : α → β → Prop} {xs : List α} {ys : List β}

theorem exists_right_of_forall₂ (related : Forall₂ R xs ys) {x : α} (member : x ∈ xs) :
    ∃ y ∈ ys, R x y := by
  induction related with
  | nil => cases member
  | @cons a b xs ys head _ ih =>
    rcases mem_cons.mp member with rfl | tail
    · exact ⟨b, mem_cons_self, head⟩
    · obtain ⟨y, there, result⟩ := ih tail
      exact ⟨y, mem_cons_of_mem _ there, result⟩

theorem exists_left_of_forall₂ (related : Forall₂ R xs ys) {y : β} (member : y ∈ ys) :
    ∃ x ∈ xs, R x y :=
  exists_right_of_forall₂ related.flip member

/-- Elements that are each related to something make up a related list. -/
theorem exists_forall₂ (each : ∀ x ∈ xs, ∃ y, R x y) : ∃ ys, Forall₂ R xs ys := by
  induction xs with
  | nil => exact ⟨[], .nil⟩
  | cons x xs ih =>
    obtain ⟨y, head⟩ := each x mem_cons_self
    obtain ⟨ys, tail⟩ := ih fun other member => each other (mem_cons_of_mem _ member)
    exact ⟨y :: ys, .cons head tail⟩

/-- Lists that are related to one list are related through its elements. -/
theorem forall₂_of_common {γ : Type} {S : α → γ → Prop} {zs : List γ} (first : Forall₂ R xs ys)
    (second : Forall₂ S xs zs) : Forall₂ (fun y z => ∃ x ∈ xs, R x y ∧ S x z) ys zs := by
  induction first generalizing zs with
  | nil =>
    cases second
    exact .nil
  | @cons x y xs ys head _ ih =>
    obtain ⟨z, rest, own, others, rfl⟩ := forall₂_cons_left_iff.mp second
    refine .cons ⟨x, mem_cons_self, head, own⟩ ((ih others).imp ?_)
    rintro a b ⟨c, member, both⟩
    exact ⟨c, mem_cons_of_mem _ member, both⟩

/-- What holds between the elements of a list holds between those that are related to them. -/
theorem pairwise_of_forall₂ {S : α → α → Prop} {T : β → β → Prop} (related : Forall₂ R xs ys)
    (apart : xs.Pairwise S) (carries : ∀ x x' y y', R x y → R x' y' → S x x' → T y y') :
    ys.Pairwise T := by
  induction related with
  | nil => exact .nil
  | cons head tail ih =>
    obtain ⟨first, rest⟩ := pairwise_cons.mp apart
    refine .cons (fun y' member => ?_) (ih rest)
    obtain ⟨x', there, other⟩ := exists_left_of_forall₂ tail member
    exact carries _ _ _ _ head other (first x' there)

theorem cases_of_rel {x : Option α} {y : Option β} (related : Option.Rel R x y) :
    (x = none ∧ y = none) ∨ ∃ a b, x = some a ∧ y = some b ∧ R a b := by
  cases related with
  | none => exact .inl ⟨rfl, rfl⟩
  | some held => exact .inr ⟨_, _, rfl, rfl, held⟩

/-- Searches through related lists that agree in their tests find what is related. -/
theorem rel_find? (related : Forall₂ R xs ys) {p : α → Bool} {q : β → Bool}
    (agree : ∀ x y, R x y → p x = q y) : Option.Rel R (xs.find? p) (ys.find? q) := by
  induction related with
  | nil => exact .none
  | @cons x y xs ys head _ ih =>
    rw [find?_cons, find?_cons, agree x y head]
    split
    · exact .some head
    · exact ih

/-! ### Outcomes -/

namespace Outcome

@[simp] theorem ok_bind (a : α) (f : α → Outcome β) : ((.ok a : Outcome α) >>= f) = f a := rfl

@[simp] theorem pure_eq (a : α) : (pure a : Outcome α) = .ok a := rfl

variable {x : Outcome α} {f : α → Outcome β} {a : α} {xs kept result : List α} {ys : List β}
  {p : α → Outcome Bool}

theorem bind_eq_ok {b : β} : (x >>= f) = .ok b ↔ ∃ a, x = .ok a ∧ f a = .ok b := by
  cases x with
  | error e => simp [bind, Except.bind]
  | ok a => simp [bind, Except.bind]

theorem bind_eq_error {e : Error} :
    (x >>= f) = .error e ↔ x = .error e ∨ ∃ a, x = .ok a ∧ f a = .error e := by
  cases x with
  | error e => simp [bind, Except.bind]
  | ok a => simp [bind, Except.bind]

theorem pure_eq_ok {b : α} : (pure a : Outcome α) = .ok b ↔ a = b := by
  simp [pure, Except.pure]

/-- A result together with the fact that it was returned. -/
def attach : (x : Outcome α) → Outcome { a : α // x = .ok a }
  | .ok a => .ok ⟨a, rfl⟩
  | .error e => .error e

/-- What holds of a result by running, and what holds of every result. -/
theorem exists_ok_and {P Q : α → Prop} (run : ∃ a, x = .ok a ∧ P a) (every : ∀ a, x = .ok a → Q a) :
    ∃ a, x = .ok a ∧ P a ∧ Q a := by
  obtain ⟨a, returned, found⟩ := run
  exact ⟨a, returned, found, every a returned⟩

theorem eq_ok_of_toOption (returned : x.toOption = some a) : x = .ok a := by
  cases x with
  | error e => cases returned
  | ok b => exact congrArg Except.ok (Option.some.inj returned)

/-- Whether a result has a property can be told by computing it. -/
instance decidableExistsOk {P : α → Prop} [DecidablePred P] : Decidable (∃ a, x = .ok a ∧ P a) :=
  decidable_of_iff (x.toOption.any fun a => P a) (by cases x <;> simp [Except.toOption])

/-- A traversal succeeds exactly where every element does, with the results in order. -/
theorem mapM_eq_ok : xs.mapM f = .ok ys ↔ Forall₂ (fun x y => f x = .ok y) xs ys := by
  induction xs generalizing ys with
  | nil => rw [mapM_nil, pure_eq_ok, forall₂_nil_left_iff, eq_comm]
  | cons x xs ih =>
    rw [mapM_cons]
    simp only [bind_eq_ok, pure_eq_ok, forall₂_cons_left_iff, ih]
    constructor
    · rintro ⟨y, head, ys', tail, rfl⟩
      exact ⟨y, ys', head, tail, rfl⟩
    · rintro ⟨y, ys', head, tail, rfl⟩
      exact ⟨y, head, ys', tail, rfl⟩

theorem exists_mapM_eq_ok {P : α → β → Prop} (each : ∀ x ∈ xs, ∃ y, f x = .ok y ∧ P x y) :
    ∃ ys, xs.mapM f = .ok ys ∧ Forall₂ P xs ys := by
  obtain ⟨ys, related⟩ := exists_forall₂ each
  exact ⟨ys, mapM_eq_ok.mpr (related.imp fun _ _ both => both.1),
    related.imp fun _ _ both => both.2⟩

theorem exists_foldlM {f : β → α → Outcome β} (each : ∀ x ∈ xs, ∀ b, ∃ next, f b x = .ok next)
    (start : β) : ∃ b, xs.foldlM f start = .ok b := by
  induction xs generalizing start with
  | nil => exact ⟨start, rfl⟩
  | cons x xs ih =>
    obtain ⟨next, first⟩ := each x mem_cons_self start
    obtain ⟨b, rest⟩ := ih (fun y member => each y (mem_cons_of_mem _ member)) next
    exact ⟨b, by rw [foldlM_cons, first, ok_bind, rest]⟩

theorem mapM_eq_self {f : α → Outcome α} (each : ∀ x ∈ xs, f x = .ok x) : xs.mapM f = .ok xs := by
  rw [mapM_eq_ok, forall₂_same]
  exact each

def isTrue : Outcome Bool → Bool
  | .ok truth => truth
  | .error _ => false

theorem isTrue_iff {x : Outcome Bool} : x.isTrue ↔ x = .ok true := by
  cases x <;> simp [isTrue]

private theorem filterAuxM_eq_ok (returned : xs.filterAuxM p kept = .ok result) :
    (∀ x ∈ xs, ∃ truth, p x = .ok truth) ∧
      result = (xs.filter fun x => (p x).isTrue).reverse ++ kept := by
  induction xs generalizing kept with
  | nil =>
    cases returned
    exact ⟨by simp, rfl⟩
  | cons x xs ih =>
    obtain ⟨truth, first, returned⟩ := bind_eq_ok.mp returned
    obtain ⟨others, rest⟩ := ih returned
    refine ⟨?_, ?_⟩
    · intro y member
      rcases mem_cons.mp member with rfl | later
      · exact ⟨truth, first⟩
      · exact others y later
    · cases truth with
      | false => simp [rest, first, isTrue]
      | true => simp [rest, first, isTrue]

/-- A selection succeeds only where every test does, and keeps what was answered with yes. -/
theorem filterM_eq_ok (returned : xs.filterM p = .ok result) :
    (∀ x ∈ xs, ∃ truth, p x = .ok truth) ∧ result = xs.filter fun x => (p x).isTrue := by
  obtain ⟨reversed, selected, returned⟩ := bind_eq_ok.mp returned
  cases returned
  obtain ⟨answered, kept⟩ := filterAuxM_eq_ok selected
  refine ⟨answered, ?_⟩
  rw [kept, append_nil, reverse_reverse]

private theorem filterAuxM_of_answered (answered : ∀ x ∈ xs, ∃ truth, p x = .ok truth) :
    xs.filterAuxM p kept = .ok ((xs.filter fun x => (p x).isTrue).reverse ++ kept) := by
  induction xs generalizing kept with
  | nil => rfl
  | cons x xs ih =>
    obtain ⟨truth, first⟩ := answered x mem_cons_self
    rw [filterAuxM, first, ok_bind, ih fun y member => answered y (mem_cons_of_mem _ member)]
    cases truth with
    | false => simp [first, isTrue]
    | true => simp [first, isTrue]

theorem filterM_of_answered (answered : ∀ x ∈ xs, ∃ truth, p x = .ok truth) :
    xs.filterM p = .ok (xs.filter fun x => (p x).isTrue) := by
  rw [filterM, filterAuxM_of_answered answered]
  simp

theorem exists_of_mem_mapM (returned : xs.mapM f = .ok ys) {x : α} (member : x ∈ xs) :
    ∃ y ∈ ys, f x = .ok y :=
  exists_right_of_forall₂ (mapM_eq_ok.mp returned) member

theorem exists_of_mem_results (returned : xs.mapM f = .ok ys) {y : β} (member : y ∈ ys) :
    ∃ x ∈ xs, f x = .ok y :=
  exists_left_of_forall₂ (mapM_eq_ok.mp returned) member

/-- Both return, with related results, or both fail, with the same error. -/
inductive Related (R : α → β → Prop) : Outcome α → Outcome β → Prop
  | ok {a : α} {b : β} (related : R a b) : Related R (.ok a) (.ok b)
  | error (e : Error) : Related R (.error e) (.error e)

namespace Related

variable {γ δ : Type} {R : α → β → Prop} {S : γ → δ → Prop}

variable {x : Outcome α} {y : Outcome β} {f : α → Outcome γ} {g : β → Outcome δ}

theorem bind (first : Related R x y) (next : ∀ a b, R a b → Related S (f a) (g b)) :
    Related S (x >>= f) (y >>= g) := by
  cases first with
  | ok related => exact next _ _ related
  | error e => exact .error e

theorem bind_eq {g : β → Outcome γ} (first : Related R x y) (next : ∀ a b, R a b → f a = g b) :
    (x >>= f) = (y >>= g) := by
  cases first with
  | ok related => exact next _ _ related
  | error e => rfl

theorem exists_of_ok (related : Related R x y) {a : α} (returned : x = .ok a) :
    ∃ b, y = .ok b ∧ R a b := by
  subst returned
  cases related with
  | ok held => exact ⟨_, rfl, held⟩

theorem exists_of_ok_right (related : Related R x y) {b : β} (returned : y = .ok b) :
    ∃ a, x = .ok a ∧ R a b := by
  subst returned
  cases related with
  | ok held => exact ⟨_, rfl, held⟩

theorem eq_error {e : Error} (related : Related R x (.error e)) : x = .error e := by
  cases related
  rfl

theorem mapM {xs : List α} {ys : List β} (related : Forall₂ R xs ys)
    (each : ∀ x y, R x y → Related S (f x) (g y)) :
    Related (Forall₂ S) (xs.mapM f) (ys.mapM g) := by
  induction related with
  | nil => exact .ok .nil
  | cons head _ ih =>
    rw [mapM_cons, mapM_cons]
    exact (each _ _ head).bind fun _ _ first => ih.bind fun _ _ rest => .ok (.cons first rest)

theorem imp {R' : α → β → Prop} (related : Related R x y) (weaker : ∀ a b, R a b → R' a b) :
    Related R' x y := by
  cases related with
  | ok held => exact .ok (weaker _ _ held)
  | error e => exact .error e

theorem of_eq {y : Outcome α} (same : x = y) : Related Eq x y := by
  subst same
  cases x with
  | ok a => exact .ok rfl
  | error e => exact .error e

theorem eq {y : Outcome α} (same : Related Eq x y) : x = y := by
  cases same with
  | ok same => rw [same]
  | error e => rfl

end Related

end Outcome

end Crosstab
