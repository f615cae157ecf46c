import Mathlib.Data.List.Basic
import Mathlib.Tactic.SplitIfs

/-!
# Runs of calls that can fault

A component is given by `perform`: a call in a state either faults or gives a
result and the next state. A run is the history of the calls completed so
far; a call that faults completes nothing and ends the run. `allowed` is what
is assumed of the client at each call, and may look at the whole history.
-/

namespace Sysprog.CheckedRuns

set_option autoImplicit false

/-- A computation of two parts ends well exactly when both parts do. -/
theorem bind_eq_ok {Fault First Second : Type} {first : Except Fault First}
    {second : First → Except Fault Second} {value : Second} :
    (first >>= second) = .ok value ↔ ∃ middle, first = .ok middle ∧ second middle = .ok value := by
  cases first with
  | error fault => simp [bind, Except.bind]
  | ok middle => simp [bind, Except.bind]

/-- It ends badly when the first part does, or the second after it. -/
theorem bind_eq_error {Fault First Second : Type} {first : Except Fault First}
    {second : First → Except Fault Second} {fault : Fault} :
    (first >>= second) = .error fault ↔
      first = .error fault ∨ ∃ middle, first = .ok middle ∧ second middle = .error fault := by
  cases first with
  | error other => simp [bind, Except.bind]
  | ok middle => simp [bind, Except.bind]

@[simp] theorem ok_bind {Fault First Second : Type} (first : First)
    (second : First → Except Fault Second) : (Except.ok first >>= second) = second first := rfl

@[simp] theorem error_bind {Fault First Second : Type} (fault : Fault)
    (second : First → Except Fault Second) :
    ((Except.error fault : Except Fault First) >>= second) = .error fault := rfl

theorem map_bound {Fault First Second Third : Type} (first : Except Fault First)
    (second : First → Except Fault Second) (change : Second → Third) :
    (first >>= second).map change = (first >>= fun value => (second value).map change) := by
  cases first <;> rfl

structure Event (Call Result : Type*) where
  call : Call
  result : Result
  deriving DecidableEq

variable {State Call Result Fault : Type*}

inductive Run (perform : State → Call → Except Fault (Result × State))
    (allowed : List (Event Call Result) → State → Call → Prop) (initial : State) :
    List (Event Call Result) → State → Prop where
  | start : Run perform allowed initial [] initial
  | call {history : List (Event Call Result)} {state next : State} {call : Call} {result : Result}
      (prior : Run perform allowed initial history state)
      (permitted : allowed history state call)
      (performed : perform state call = .ok (result, next)) :
      Run perform allowed initial (history ++ [⟨call, result⟩]) next

variable {perform : State → Call → Except Fault (Result × State)}
  {allowed : List (Event Call Result) → State → Call → Prop} {initial : State}

/-- The induction rule of this library: what the initial state has and every
permitted call keeps, every run has. -/
theorem run_invariant (invariant : List (Event Call Result) → State → Prop)
    (initially : invariant [] initial)
    (kept : ∀ history state call result next, invariant history state →
      allowed history state call → perform state call = .ok (result, next) →
      invariant (history ++ [⟨call, result⟩]) next)
    {history : List (Event Call Result)} {state : State}
    (run : Run perform allowed initial history state) : invariant history state := by
  induction run with
  | start => exact initially
  | call prior permitted performed held =>
      exact kept _ _ _ _ _ held permitted performed

/-- A run under stronger assumptions is one under weaker assumptions. -/
theorem run_weaken {wider : List (Event Call Result) → State → Call → Prop}
    (weaker : ∀ history state call, allowed history state call → wider history state call)
    {history : List (Event Call Result)} {state : State}
    (run : Run perform allowed initial history state) : Run perform wider initial history state := by
  induction run with
  | start => exact .start
  | call prior permitted performed held => exact .call held (weaker _ _ _ permitted) performed

/-- A call before a run whose assumptions do not look at the history. -/
theorem run_cons {permitted : State → Call → Prop} {history : List (Event Call Result)}
    {state next : State} {call : Call} {result : Result} (fits : permitted initial call)
    (performed : perform initial call = .ok (result, next))
    (run : Run perform (fun _ => permitted) next history state) :
    Run perform (fun _ => permitted) initial (⟨call, result⟩ :: history) state := by
  induction run with
  | start => exact .call .start fits performed
  | call prior permitted performed earlier => exact .call earlier permitted performed

/-- A run behind a run. -/
theorem run_append {permitted : State → Call → Prop} {middle : State}
    (weaker : ∀ history state call, permitted state call → allowed history state call)
    {history : List (Event Call Result)} (run : Run perform allowed initial history middle)
    {later : List (Event Call Result)} {state : State}
    (rest : Run perform (fun _ => permitted) middle later state) :
    Run perform allowed initial (history ++ later) state := by
  induction rest with
  | start =>
      rw [List.append_nil]
      exact run
  | call prior fits performed together =>
      rw [← List.append_assoc]
      exact together.call (weaker _ _ _ fits) performed

/-- The rule for what can still come about: where each state that is not at the
goal has a call that brings it closer, a run leads to the goal. -/
theorem run_reaches {Rank : Type*} [WellFoundedRelation Rank] (rank : State → Rank)
    (invariant goal : State → Prop) {permitted : State → Call → Prop}
    (closer : ∀ state, invariant state → goal state ∨ ∃ call result next, permitted state call ∧
      perform state call = .ok (result, next) ∧ invariant next ∧
        WellFoundedRelation.rel (rank next) (rank state))
    {state : State} (held : invariant state) :
    ∃ history final, Run perform (fun _ => permitted) state history final ∧ invariant final ∧
      goal final := by
  rcases closer state held with reached | ⟨call, result, next, fits, performed, kept, less⟩
  · exact ⟨[], state, .start, held, reached⟩
  · obtain ⟨history, final, run, ended⟩ := run_reaches rank invariant goal closer kept
    exact ⟨_, final, run_cons fits performed run, ended⟩
termination_by rank state

/-! ## Charges -/

/-- What the events of a run come to. -/
def total (amount : Event Call Result → Nat) : List (Event Call Result) → Nat
  | [] => 0
  | event :: history => amount event + total amount history

theorem total_snoc (amount : Event Call Result → Nat) (history : List (Event Call Result))
    (event : Event Call Result) :
    total amount (history ++ [event]) = total amount history + amount event := by
  induction history with
  | nil => exact Nat.add_comm _ _
  | cons first rest ih =>
      rw [List.cons_append, total, total, ih, Nat.add_assoc]

theorem total_mul (factor : Nat) (amount : Event Call Result → Nat)
    (history : List (Event Call Result)) :
    total (fun event => factor * amount event) history = factor * total amount history := by
  induction history with
  | nil => rfl
  | cons first rest ih =>
      rw [total, total, ih, Nat.mul_add]

/-- The potential rule: where a call is paid for by what it is granted and what
the potential falls by, a run is paid for by what its calls are granted. -/
theorem charged_run (charge grant : Event Call Result → Nat) (potential : State → Nat)
    (invariant : List (Event Call Result) → State → Prop) (initially : invariant [] initial)
    (kept : ∀ history state call result next, invariant history state →
      allowed history state call → perform state call = .ok (result, next) →
      invariant (history ++ [⟨call, result⟩]) next ∧
        charge ⟨call, result⟩ + potential next ≤ potential state + grant ⟨call, result⟩)
    {history : List (Event Call Result)} {state : State}
    (run : Run perform allowed initial history state) :
    total charge history + potential state ≤ potential initial + total grant history := by
  have paid := run_invariant
    (fun history state => invariant history state ∧
      total charge history + potential state ≤ potential initial + total grant history)
    ⟨initially, Nat.le_of_eq (Nat.add_comm _ _)⟩
    (fun history state call result next held permitted performed => by
      obtain ⟨after, step⟩ := kept history state call result next held.1 permitted performed
      have before := held.2
      refine ⟨after, ?_⟩
      rw [total_snoc, total_snoc]
      omega) run
  exact paid.2

/-- Perform a list of calls one after another, as far as they are permitted. -/
def replay (perform : State → Call → Except Fault (Result × State))
    (allowed : List (Event Call Result) → State → Call → Prop)
    [∀ history state call, Decidable (allowed history state call)] :
    List Call → List (Event Call Result) → State → Option (List (Event Call Result) × State)
  | [], history, state => some (history, state)
  | call :: calls, history, state =>
      if allowed history state call then
        match perform state call with
        | .error _ => none
        | .ok (result, next) => replay perform allowed calls (history ++ [⟨call, result⟩]) next
      else none

theorem run_of_replay [∀ history state call, Decidable (allowed history state call)]
    {calls : List Call} {history after : List (Event Call Result)} {state final : State}
    (run : Run perform allowed initial history state)
    (replayed : replay perform allowed calls history state = some (after, final)) :
    Run perform allowed initial after final := by
  induction calls generalizing history state with
  | nil =>
      cases replayed
      exact run
  | cons call calls ih =>
      unfold replay at replayed
      split_ifs at replayed with permitted
      cases performed : perform state call with
      | error fault => simp [performed] at replayed
      | ok outcome =>
          simp only [performed] at replayed
          exact ih (.call run permitted performed) replayed

end Sysprog.CheckedRuns
