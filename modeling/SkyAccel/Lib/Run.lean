import Mathlib.Order.Defs.PartialOrder

/-!
# Runs of a labelled step relation

`Run step ok s s'` says that steps lead from `s` to `s'`, each of which meets the
condition `ok` on its state and label. A property that such steps keep holds in every
state reached (`Run.invariant`), and a goal to which some step always comes closer can be
reached (`Run.reach`).
-/

namespace SkyAccel

section
variable {S E : Type} {step : S → E → S → Prop} {ok ok' : S → E → Prop}

inductive Run (step : S → E → S → Prop) (ok : S → E → Prop) (s : S) : S → Prop
  | start : Run step ok s s
  | next {s' s'' : S} {e : E} : Run step ok s s' → ok s' e → step s' e s'' → Run step ok s s''

theorem Run.trans {s s' s'' : S} (h : Run step ok s s') (h' : Run step ok s' s'') :
    Run step ok s s'' := by
  induction h' with
  | start => exact h
  | next _ meets move ih => exact ih.next meets move

theorem Run.single {s s' : S} {e : E} (meets : ok s e) (move : step s e s') : Run step ok s s' :=
  Run.start.next meets move

theorem Run.mono (weaker : ∀ s e, ok s e → ok' s e) {s s' : S} (h : Run step ok s s') :
    Run step ok' s s' := by
  induction h with
  | start => exact .start
  | next _ meets move ih => exact ih.next (weaker _ _ meets) move

/-- A run of one step relation is a run of another that can take its steps. -/
theorem Run.imp {step' : S → E → S → Prop}
    (imp : ∀ s e s', ok s e → step s e s' → step' s e s') {s s' : S} (h : Run step ok s s') :
    Run step' ok s s' := by
  induction h with
  | start => exact .start
  | next _ meets move ih => exact ih.next meets (imp _ _ _ meets move)

/-- What every step keeps, a run keeps. -/
theorem Run.invariant {P : S → Prop} (keep : ∀ s e s', P s → ok s e → step s e s' → P s')
    {s s' : S} (h : Run step ok s s') (start : P s) : P s' := by
  induction h with
  | start => exact start
  | next _ meets move ih => exact keep _ _ _ ih meets move

theorem Run.reach {P Q : S → Prop} (rank : S → Nat)
    (closer : ∀ s, P s → ¬ Q s → ∃ e s', ok s e ∧ step s e s' ∧ P s' ∧ rank s' < rank s)
    {s : S} (start : P s) : ∃ s', Run step ok s s' ∧ P s' ∧ Q s' := by
  induction distance : rank s using Nat.strongRecOn generalizing s with
  | ind n ih =>
    by_cases there : Q s
    · exact ⟨s, .start, start, there⟩
    · obtain ⟨e, s₁, meets, move, kept, less⟩ := closer s start there
      obtain ⟨s', run, arrived⟩ := ih (rank s₁) (distance ▸ less) kept rfl
      exact ⟨s', (Run.single meets move).trans run, arrived⟩

/-! ## Machines -/

/-- The steps of a machine that computes its next state, if it has one. -/
def Moves (next : S → E → Option S) (s : S) (e : E) (s' : S) : Prop := next s e = some s'

/-- One step of a machine, if it meets the condition. -/
def checked (next : S → E → Option S) (ok : S → E → Prop) [∀ s e, Decidable (ok s e)] (s : S)
    (e : E) : Option S :=
  if ok s e then next s e else none

theorem Run.of_checked {next : S → E → Option S} [∀ s e, Decidable (ok s e)] {es : List E}
    {s s' : S} (h : es.foldlM (checked next ok) s = some s') : Run (Moves next) ok s s' := by
  induction es generalizing s with
  | nil =>
    obtain rfl := Option.some.inj h
    exact .start
  | cons e es ih =>
    obtain ⟨s₁, first, rest⟩ := Option.bind_eq_some_iff.mp h
    unfold checked at first
    split at first
    · rename_i meets
      exact (Run.single meets first).trans (ih rest)
    · cases first

/-- A run that is found by computing it. -/
theorem Run.exists_of_checked {next : S → E → Option S} [∀ s e, Decidable (ok s e)] (es : List E)
    {s : S} {P : S → Prop} (h : ∃ s' ∈ es.foldlM (checked next ok) s, P s') :
    ∃ s', Run (Moves next) ok s s' ∧ P s' := by
  obtain ⟨s', moves, holds⟩ := h
  exact ⟨s', Run.of_checked moves, holds⟩

end

end SkyAccel
