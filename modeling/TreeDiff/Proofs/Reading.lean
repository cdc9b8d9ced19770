/-
# Reading in steps

A reader goes through a document step by step and stops at the first step that fails.  When it
succeeds all of its steps did; when it fails it does so with the fault of the first step that
failed.  What a reader demands can therefore be said as a list of checks in the order of its steps.
-/
import Mathlib.Data.List.Forall2
import Mathlib.Tactic.Lemma

namespace TreeDiff

/-- Why a reading has no result. -/
def faultOf? {ε α : Type} : Except ε α → Option ε
  | .ok _ => none
  | .error e => some e

section

variable {ε ε' α β : Type} {read : Except ε α} {next : α → Except ε β} {e : ε}

lemma faultOf?_eq_none_iff : faultOf? read = none ↔ ∃ a, read = .ok a := by
  cases read <;> simp [faultOf?]

lemma faultOf?_eq_some_iff : faultOf? read = some e ↔ read = .error e := by
  cases read <;> simp [faultOf?]

/-- Two steps succeed if the first one does and then the second one. -/
lemma exists_of_bind_eq_ok {b : β} (h : read >>= next = .ok b) :
    ∃ a, read = .ok a ∧ next a = .ok b := by
  cases read with
  | error e => cases h
  | ok a => exact ⟨a, rfl, h⟩

lemma map_eq_ok_iff {f : α → β} {b : β} : read.map f = .ok b ↔ ∃ a, read = .ok a ∧ f a = b := by
  cases read <;> simp [Except.map]

lemma mapError_eq_ok_iff {f : ε → ε'} {a : α} : read.mapError f = .ok a ↔ read = .ok a := by
  cases read <;> simp [Except.mapError]

/-- Two steps fail with the fault of the first one, or else with that of the second one. -/
lemma faultOf?_bind (fault : Option ε) (h : ∀ a, read = .ok a → faultOf? (next a) = fault) :
    faultOf? (read >>= next) = (faultOf? read).or fault := by
  cases read with
  | error e => rfl
  | ok a => exact h a rfl

lemma faultOf?_bind_pure (f : α → β) : faultOf? (read >>= fun a => pure (f a)) = faultOf? read := by
  cases read <;> rfl

@[simp] lemma faultOf?_map (f : α → β) : faultOf? (read.map f) = faultOf? read := by
  cases read <;> rfl

@[simp] lemma faultOf?_mapError (f : ε → ε') :
    faultOf? (read.mapError f) = (faultOf? read).map f := by
  cases read <;> rfl

variable {step : α → Except ε β} {items : List α} {results : List β}

/-- Reading a list reads its items one for one. -/
lemma forall₂_of_mapM_eq_ok (h : items.mapM step = .ok results) :
    List.Forall₂ (fun a b => step a = .ok b) items results := by
  induction items generalizing results with
  | nil =>
    cases h
    exact List.Forall₂.nil
  | cons a rest ih =>
    rw [List.mapM_cons] at h
    obtain ⟨b, hb, h⟩ := exists_of_bind_eq_ok h
    obtain ⟨others, hothers, h⟩ := exists_of_bind_eq_ok h
    cases h
    exact List.Forall₂.cons hb (ih hothers)

/-- What is read from a list is read from one of its items. -/
lemma exists_of_mem_mapM {b : β} (h : items.mapM step = .ok results) (hb : b ∈ results) :
    ∃ a ∈ items, step a = .ok b := by
  have hall := forall₂_of_mapM_eq_ok h
  clear h
  induction hall with
  | nil => cases hb
  | cons hstep _ ih =>
    rcases List.mem_cons.1 hb with rfl | hb
    · exact ⟨_, List.mem_cons_self, hstep⟩
    · obtain ⟨a, ha, hread⟩ := ih hb
      exact ⟨a, List.mem_cons_of_mem _ ha, hread⟩

lemma map_eq_of_mapM {γ : Type} {f : α → γ} {g : β → γ} (h : items.mapM step = .ok results)
    (hkey : ∀ a b, step a = .ok b → g b = f a) : results.map g = items.map f := by
  have hall := forall₂_of_mapM_eq_ok h
  clear h
  induction hall with
  | nil => rfl
  | cons hstep _ ih => rw [List.map_cons, List.map_cons, ih, hkey _ _ hstep]

/-- Reading a list fails with the fault of the first item that fails. -/
lemma faultOf?_mapM : faultOf? (items.mapM step) = items.findSome? fun a => faultOf? (step a) := by
  induction items with
  | nil => rfl
  | cons a rest ih =>
    rw [List.mapM_cons, faultOf?_bind (rest.findSome? fun a => faultOf? (step a)),
      List.findSome?_cons]
    · cases faultOf? (step a) <;> rfl
    · intro b _
      rw [faultOf?_bind none fun _ _ => rfl, ih, Option.or_none]

end

/-! ## Checks in order -/

/-- A condition on a document, and the fault of a document that does not meet it. -/
structure Check (ε : Type) where
  holds : Bool
  fault : ε

namespace Check

variable {ε ε' α : Type} {check : Check ε} {checks others : List (Check ε)} {fault : ε}

/-- A check whose fault is told in another way. -/
def mapFault (f : ε → ε') (check : Check ε) : Check ε' := ⟨check.holds, f check.fault⟩

/-- The fault of the first check that does not hold. -/
def firstFault (checks : List (Check ε)) : Option ε :=
  checks.findSome? fun check => if check.holds then none else some check.fault

/-- Whether a fault is that of the first check that does not hold. -/
def IsFirst (checks : List (Check ε)) (fault : ε) : Prop :=
  ∃ before check after, checks = before ++ check :: after ∧
    (∀ c ∈ before, c.holds = true) ∧ check.holds = false ∧ check.fault = fault

@[simp] lemma firstFault_nil : firstFault ([] : List (Check ε)) = none := rfl

@[simp] lemma firstFault_cons : firstFault (check :: checks) =
    if check.holds then firstFault checks else some check.fault := by
  rw [firstFault, List.findSome?_cons]
  cases check.holds <;> rfl

@[simp] lemma firstFault_append :
    firstFault (checks ++ others) = (firstFault checks).or (firstFault others) :=
  List.findSome?_append

@[simp] lemma firstFault_flatMap {items : List α} {f : α → List (Check ε)} :
    firstFault (items.flatMap f) = items.findSome? fun a => firstFault (f a) := by
  induction items with
  | nil => rfl
  | cons a rest ih =>
    rw [List.flatMap_cons, firstFault_append, ih, List.findSome?_cons]
    cases firstFault (f a) <;> rfl

@[simp] lemma firstFault_map {f : ε → ε'} :
    firstFault (checks.map (mapFault f)) = (firstFault checks).map f := by
  induction checks with
  | nil => rfl
  | cons check rest ih =>
    rw [List.map_cons, firstFault_cons, firstFault_cons, ih]
    cases h : check.holds <;> simp [mapFault, h]

lemma firstFault_eq_none_iff : firstFault checks = none ↔ ∀ check ∈ checks, check.holds = true := by
  induction checks with
  | nil => simp
  | cons check rest ih => cases h : check.holds <;> simp [h, ih]

lemma firstFault_eq_some_iff : firstFault checks = some fault ↔ IsFirst checks fault := by
  induction checks with
  | nil => simp [IsFirst]
  | cons check rest ih =>
    rw [firstFault_cons, IsFirst]
    cases h : check.holds with
    | true =>
      rw [if_pos rfl, ih, IsFirst]
      constructor
      · rintro ⟨before, c, after, rfl, hbefore, hc, hfault⟩
        exact ⟨check :: before, c, after, rfl, List.forall_mem_cons.2 ⟨h, hbefore⟩, hc, hfault⟩
      · rintro ⟨before, c, after, heq, hbefore, hc, hfault⟩
        cases before with
        | nil =>
          cases heq
          simp [h] at hc
        | cons b before =>
          cases heq
          exact ⟨before, c, after, rfl, (List.forall_mem_cons.1 hbefore).2, hc, hfault⟩
    | false =>
      rw [if_neg Bool.false_ne_true, Option.some.injEq]
      constructor
      · rintro rfl
        exact ⟨[], check, rest, rfl, by simp, h, rfl⟩
      · rintro ⟨before, c, after, heq, hbefore, hc, hfault⟩
        cases before with
        | nil =>
          cases heq
          exact hfault
        | cons b before =>
          cases heq
          simp [hbefore] at h

end Check

/-- Two steps check what the first one checks and then what the second one does. -/
lemma faultOf?_bind_checks {ε α β : Type} {read : Except ε α} {next : α → Except ε β}
    {first second : List (Check ε)} (hread : faultOf? read = Check.firstFault first)
    (hnext : ∀ a, faultOf? (next a) = Check.firstFault second) :
    faultOf? (read >>= next) = Check.firstFault (first ++ second) := by
  rw [Check.firstFault_append, faultOf?_bind _ fun a _ => hnext a, hread]

end TreeDiff
