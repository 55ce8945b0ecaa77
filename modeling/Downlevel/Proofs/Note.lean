/-
# Downlevel.Proofs.Note — results do not depend on notes

`x.Gives P` says that the noted computation `x` can succeed with `a` exactly if `P a`,
whatever notes were taken before. The notes it takes itself are left open.

`x.Reports P` also follows the diagnostics among the notes: `x` can succeed with `a` and report
`found` on the way exactly if `P a found`. Events are left open there too.
-/
import Downlevel.Note
import Downlevel.Proofs.Sequencing

namespace Downlevel.Noted

set_option autoImplicit false

open Sequencing

variable {α β : Type}

/-- The computation succeeds exactly with what `P` says. -/
def Gives (x : Noted α) (P : α → Prop) : Prop :=
  Does (fun _ => ()) x fun _ a _ => P a

section Gives

variable {x : Noted α}

theorem Gives.congr {P Q : α → Prop} (gives : x.Gives P) (same : ∀ a, P a ↔ Q a) : x.Gives Q :=
  Does.congr gives fun _ a _ => same a

theorem Gives.of_run {P : α → Prop} (gives : x.Gives P) {notes notes' : Array Note} {a : α}
    (ran : x.run notes = (.ok a, notes')) : P a :=
  Does.of_run gives ran

/-- What the description allows can be run, after any notes. -/
theorem Gives.run {P : α → Prop} (gives : x.Gives P) {a : α} (holds : P a) (notes : Array Note) :
    ∃ notes', x.run notes = (.ok a, notes') := by
  obtain ⟨notes', ran, -⟩ := (gives notes a ()).mpr holds
  exact ⟨notes', ran⟩

theorem gives_pure (a : α) : (pure a : Noted α).Gives (· = a) :=
  (does_pure a).congr fun _ _ _ => by simp

theorem gives_check (result : Except Malformed α) :
    (Noted.check result).Gives fun a => result = .ok a := by
  cases result with
  | ok found => exact (gives_pure found).congr fun a => by simp [eq_comm]
  | error e =>
      intro notes a t
      constructor
      · rintro ⟨notes', ran, -⟩
        cases ran
      · intro impossible
        cases impossible

theorem gives_write (note : Note) : (Noted.write note).Gives fun _ => True := by
  intro notes a t
  exact ⟨fun _ => trivial, fun _ => ⟨_, rfl, rfl⟩⟩

theorem Gives.bind {f : α → Noted β} {P : α → Prop} {Q : α → β → Prop} (first : x.Gives P)
    (next : ∀ a, (f a).Gives (Q a)) : (x >>= f).Gives fun b => ∃ a, P a ∧ Q a b :=
  (Does.bind first next).congr fun _ _ _ => by simp

theorem Gives.ite {c : Prop} [Decidable c] {y : Noted α} {P Q : α → Prop} (yes : x.Gives P)
    (no : y.Gives Q) : (if c then x else y).Gives fun a => c ∧ P a ∨ ¬ c ∧ Q a :=
  Does.ite yes no

theorem Gives.filterMapM {f : α → Noted (Option β)} {P : α → Option β → Prop}
    (each : ∀ a, (f a).Gives (P a)) (as : List α) :
    (as.filterMapM f).Gives fun kept => ∃ bs, List.Forall₂ P as bs ∧ kept = bs.reduceOption := by
  refine (Does.filterMapM each as).congr fun _ kept _ => ?_
  constructor
  · rintro ⟨bs, rounds, same⟩
    exact ⟨bs, rounds.forall₂ fun _ _ _ _ held => held, same⟩
  · rintro ⟨bs, pairs, same⟩
    refine ⟨bs, ?_, same⟩
    clear same
    induction pairs with
    | nil => exact .nil ()
    | cons first _ ih => exact .cons first ih

end Gives

/-! ## Diagnostics -/

/-- The diagnostics among notes, in their order. -/
def reported (notes : Array Note) : List Diagnostic :=
  notes.toList.filterMap Note.diagnostic?

/-- The computation succeeds exactly with what `P` says, and then has reported what `P` says. -/
def Reports (x : Noted α) (P : α → List Diagnostic → Prop) : Prop :=
  Does reported x fun before a after => ∃ found, after = before ++ found ∧ P a found

section Reports

variable {x : Noted α} {P : α → List Diagnostic → Prop}

theorem Reports.congr {Q : α → List Diagnostic → Prop} (reports : x.Reports P)
    (same : ∀ a found, P a found ↔ Q a found) : x.Reports Q := by
  apply Does.congr reports
  intro before a after
  simp only [same]

theorem Reports.of_run (reports : x.Reports P) {notes notes' : Array Note} {a : α}
    (ran : x.run notes = (.ok a, notes')) :
    ∃ found, reported notes' = reported notes ++ found ∧ P a found :=
  Does.of_run reports ran

/-- Leaving out what was reported, it is said what the computation gives. -/
theorem Reports.gives (reports : x.Reports P) : x.Gives fun a => ∃ found, P a found := by
  intro notes a t
  constructor
  · intro ran
    obtain ⟨notes', ran, -⟩ := ran
    obtain ⟨found, -, holds⟩ := reports.of_run ran
    exact ⟨found, holds⟩
  · intro holds
    obtain ⟨found, holds⟩ := holds
    obtain ⟨notes', ran, -⟩ := (reports notes a _).mpr ⟨found, rfl, holds⟩
    exact ⟨notes', ran, rfl⟩

theorem reports_pure (a : α) : (pure a : Noted α).Reports fun b found => b = a ∧ found = [] := by
  apply (does_pure a).congr
  intro before b after
  simp [and_comm]

theorem reports_check (result : Except Malformed α) :
    (Noted.check result).Reports fun a found => result = .ok a ∧ found = [] := by
  cases result with
  | ok a =>
      apply (reports_pure a).congr
      intro b found
      simp [eq_comm]
  | error e =>
      intro notes a t
      constructor
      · intro ran
        obtain ⟨notes', ran, -⟩ := ran
        cases ran
      · intro impossible
        simp at impossible

theorem reports_write (note : Note) :
    (Noted.write note).Reports fun _ found => found = note.diagnostic?.toList := by
  have pushed (notes : Array Note) :
      reported (notes.push note) = reported notes ++ note.diagnostic?.toList := by
    unfold reported
    rw [Array.toList_push, List.filterMap_append]
    cases found : note.diagnostic? with
    | none => simp [found]
    | some d => simp [found]
  intro notes a t
  constructor
  · intro ran
    obtain ⟨notes', ran, rfl⟩ := ran
    cases ran
    exact ⟨_, pushed notes, rfl⟩
  · intro holds
    obtain ⟨found, rfl, rfl⟩ := holds
    exact ⟨notes.push note, rfl, pushed notes⟩

theorem Reports.bind {f : α → Noted β} {Q : α → β → List Diagnostic → Prop} (first : x.Reports P)
    (next : ∀ a, (f a).Reports (Q a)) :
    (x >>= f).Reports fun b found =>
      ∃ a early late, P a early ∧ Q a b late ∧ found = early ++ late := by
  apply (Does.bind first next).congr
  intro before b after
  constructor
  · intro did
    obtain ⟨a, middle, ⟨early, rfl, holds⟩, late, rfl, holds'⟩ := did
    exact ⟨early ++ late, List.append_assoc _ _ _, a, early, late, holds, holds', rfl⟩
  · intro did
    obtain ⟨found, rfl, a, early, late, holds, holds', rfl⟩ := did
    exact ⟨a, before ++ early, ⟨early, rfl, holds⟩, late, (List.append_assoc _ _ _).symm, holds'⟩

theorem Reports.ite {c : Prop} [Decidable c] {y : Noted α} {Q : α → List Diagnostic → Prop}
    (yes : x.Reports P) (no : y.Reports Q) :
    (if c then x else y).Reports fun a found => c ∧ P a found ∨ ¬ c ∧ Q a found := by
  by_cases holds : c
  · rw [if_pos holds]
    exact yes.congr fun a found => by simp [holds]
  · rw [if_neg holds]
    exact no.congr fun a found => by simp [holds]

/-- A loop that leaves items out reports what its rounds report, one round after the other. -/
theorem Reports.filterMapM {f : α → Noted (Option β)} {P : α → Option β → List Diagnostic → Prop}
    (each : ∀ a, (f a).Reports (P a)) (as : List α) :
    (as.filterMapM f).Reports fun kept found =>
      ∃ rounds : List (Option β × List Diagnostic),
        List.Forall₂ (fun a round => P a round.1 round.2) as rounds ∧
        kept = (rounds.map Prod.fst).reduceOption ∧ found = rounds.flatMap Prod.snd := by
  apply (Does.filterMapM each as).congr
  intro before kept after
  constructor
  · intro did
    obtain ⟨bs, rounds, rfl⟩ := did
    induction rounds with
    | nil before => exact ⟨[], (List.append_nil _).symm, [], .nil, rfl, rfl⟩
    | @cons before middle after a b as bs first _ ih =>
        obtain ⟨early, rfl, holds⟩ := first
        obtain ⟨late, rfl, rounds, others, kept, rfl⟩ := ih
        refine ⟨early ++ rounds.flatMap Prod.snd, List.append_assoc _ _ _, (b, early) :: rounds,
          .cons holds others, ?_, rfl⟩
        cases b with
        | none => exact kept
        | some b => exact congrArg (b :: ·) kept
  · intro did
    obtain ⟨found, rfl, rounds, pairs, rfl, rfl⟩ := did
    refine ⟨rounds.map Prod.fst, ?_, rfl⟩
    induction pairs generalizing before with
    | nil =>
        rw [List.flatMap_nil, List.append_nil]
        exact .nil before
    | @cons a round as rounds holds _ ih =>
        rw [List.flatMap_cons, ← List.append_assoc]
        exact .cons ⟨round.2, rfl, holds⟩ (ih _)

end Reports

end Downlevel.Noted
