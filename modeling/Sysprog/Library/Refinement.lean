import Sysprog.Library.PairedRuns

/-!
# Refinement of components

Two ways in which a component can be a version of a more abstract one. Where
every call of the one is a call of the other, they give the same answers and
stop with the same fault. Where the steps of the one are smaller, each of its
runs is matched by a run of the other that may take no step, one or several
for a step of the first.
-/

namespace Sysprog.Refinement

open CheckedRuns PairedRuns

set_option autoImplicit false

/-! ## Answers -/

section Answers

variable {State Abstract Call Result Fault : Type}

/-- Make calls one after another until one faults: the results, and the state
in the end or the fault. -/
def runCalls (perform : State → Call → Except Fault (Result × State)) :
    State → List Call → List Result × Except Fault State
  | state, [] => ([], .ok state)
  | state, call :: calls =>
      match perform state call with
      | .error fault => ([], .error fault)
      | .ok (result, next) =>
          (result :: (runCalls perform next calls).1, (runCalls perform next calls).2)

/-- Every call that is made is permitted in the state it is made in. -/
def Disciplined (perform : State → Call → Except Fault (Result × State))
    (permitted : State → Call → Prop) : State → List Call → Prop
  | _, [] => True
  | state, call :: calls => permitted state call ∧
      match perform state call with
      | .error _ => True
      | .ok (_, next) => Disciplined perform permitted next calls

instance decidableDisciplined (perform : State → Call → Except Fault (Result × State))
    (permitted : State → Call → Prop) [∀ state call, Decidable (permitted state call)] :
    (state : State) → (calls : List Call) → Decidable (Disciplined perform permitted state calls)
  | _, [] => .isTrue trivial
  | state, call :: calls =>
      let rest : Decidable (match perform state call with
          | .error _ => True
          | .ok (_, next) => Disciplined perform permitted next calls) :=
        match perform state call with
        | .error _ => .isTrue trivial
        | .ok (_, next) => decidableDisciplined perform permitted next calls
      @instDecidableAnd _ _ _ rest

variable {perform : State → Call → Except Fault (Result × State)}
  {spec : Abstract → Call → Except Fault (Result × Abstract)}
  {permitted : Abstract → Call → Prop}

/-- One result, and related states after it. -/
def SameResult (related : State → Abstract → Prop) (first : Result × State)
    (second : Result × Abstract) : Prop :=
  first.1 = second.1 ∧ related first.2 second.2

/-- The refinement rule for answers: when every permitted call ends alike in
related states, a client that keeps to the discipline of the abstract
component gets its answers from the other, up to the same fault. -/
theorem same_answers {related : State → Abstract → Prop}
    (kept : ∀ state abstract call, related state abstract → permitted abstract call →
      Alike (SameResult related) (perform state call) (spec abstract call))
    {calls : List Call} {state : State} {abstract : Abstract} (held : related state abstract)
    (disciplined : Disciplined spec permitted abstract calls) :
    (runCalls perform state calls).1 = (runCalls spec abstract calls).1 ∧
      Alike related (runCalls perform state calls).2 (runCalls spec abstract calls).2 := by
  induction calls generalizing state abstract with
  | nil => exact ⟨rfl, .value held⟩
  | cons call calls ih =>
      obtain ⟨allowed, rest⟩ := disciplined
      have alike := kept state abstract call held allowed
      unfold runCalls
      cases performed : perform state call with
      | error fault =>
          rw [performed] at alike
          cases specified : spec abstract call with
          | error other =>
              rw [specified] at alike
              cases alike
              exact ⟨rfl, .fault fault⟩
          | ok outcome =>
              rw [specified] at alike
              cases alike
      | ok outcome =>
          obtain ⟨⟨result, next⟩, specified, same, after⟩ := alike_ok alike performed
          simp only [specified] at rest ⊢
          obtain ⟨answers, ending⟩ := ih after rest
          dsimp only at same answers ending ⊢
          exact ⟨by rw [same, answers], ending⟩

end Answers

/-! ## Smaller steps -/

section Simulation

variable {State Abstract Step Report Call Result Fault AbstractFault : Type*}
  {perform : State → Step → Except Fault (Report × State)}
  {allowed : List (Event Step Report) → State → Step → Prop} {initial : State}
  {spec : Abstract → Call → Except AbstractFault (Result × Abstract)}
  {specAllowed : List (Event Call Result) → Abstract → Call → Prop} {start : Abstract}

/-- The simulation rule: a relation of a run and an abstract run that a step
of the first keeps when the second is prolonged suitably. -/
theorem simulated_run
    (related : List (Event Step Report) → State → List (Event Call Result) → Abstract → Prop)
    (initially : related [] initial [] start)
    (kept : ∀ history state step report next observed abstract,
      related history state observed abstract → allowed history state step →
      perform state step = .ok (report, next) → Run spec specAllowed start observed abstract →
      ∃ observed' abstract', Run spec specAllowed start observed' abstract' ∧
        related (history ++ [⟨step, report⟩]) next observed' abstract')
    {history : List (Event Step Report)} {state : State}
    (run : Run perform allowed initial history state) :
    ∃ observed abstract, Run spec specAllowed start observed abstract ∧
      related history state observed abstract := by
  induction run with
  | start => exact ⟨[], start, .start, initially⟩
  | call prior permitted performed ih =>
      obtain ⟨observed, abstract, matched, held⟩ := ih
      exact kept _ _ _ _ _ _ _ held permitted performed matched

end Simulation

end Sysprog.Refinement
