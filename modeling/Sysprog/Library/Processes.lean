import Mathlib.Data.List.Basic

/-!
# Programs that fork

A program run from a state gives every process it turns into: each with its
own state, and either going on with a value or ended. After a fork both
processes go on with what follows.
-/

namespace Sysprog.Processes

set_option autoImplicit false

abbrev Outcome (State Ending Value : Type) := State × Except Ending Value

@[ext] structure Program (State Ending Value : Type) where
  run : State → List (Outcome State Ending Value)

variable {State Ending Value Next : Type}

/-- A process that has ended is not continued. -/
def continued (next : Value → Program State Ending Next) :
    Outcome State Ending Value → List (Outcome State Ending Next)
  | (state, .ok value) => (next value).run state
  | (state, .error ending) => [(state, .error ending)]

instance : Monad (Program State Ending) where
  pure value := ⟨fun state => [(state, .ok value)]⟩
  bind first next := ⟨fun state => (first.run state).flatMap (continued next)⟩

def get : Program State Ending State := ⟨fun state => [(state, .ok state)]⟩

def modify (change : State → State) : Program State Ending Unit :=
  ⟨fun state => [(change state, .ok ())]⟩

def finish (ending : Ending) : Program State Ending Value :=
  ⟨fun state => [(state, .error ending)]⟩

/-- Whether this is the child. -/
def fork (child parent : State → State) : Program State Ending Bool :=
  ⟨fun state => [(child state, .ok true), (parent state, .ok false)]⟩

@[simp] theorem pure_run (value : Value) (state : State) :
    (pure value : Program State Ending Value).run state = [(state, .ok value)] := rfl

theorem bind_run (first : Program State Ending Value) (next : Value → Program State Ending Next)
    (state : State) : (first >>= next).run state = (first.run state).flatMap (continued next) := rfl

theorem bind_of_ok {first : Program State Ending Value} {state after : State} {value : Value}
    (next : Value → Program State Ending Next) (ran : first.run state = [(after, .ok value)]) :
    (first >>= next).run state = (next value).run after := by
  rw [bind_run, ran, List.flatMap_singleton, continued]

theorem bind_of_error {first : Program State Ending Value} {state after : State} {ending : Ending}
    (next : Value → Program State Ending Next) (ran : first.run state = [(after, .error ending)]) :
    (first >>= next).run state = [(after, .error ending)] := by
  rw [bind_run, ran, List.flatMap_singleton, continued]

@[simp] theorem pure_bind_run (value : Value) (next : Value → Program State Ending Next)
    (state : State) : (pure value >>= next).run state = (next value).run state :=
  bind_of_ok next (pure_run value state)

@[simp] theorem get_run (next : State → Program State Ending Next) (state : State) :
    (get >>= next).run state = (next state).run state :=
  bind_of_ok next rfl

@[simp] theorem modify_run (change : State → State) (next : Unit → Program State Ending Next)
    (state : State) : (modify change >>= next).run state = (next ()).run (change state) :=
  bind_of_ok next rfl

@[simp] theorem finish_run (ending : Ending) (next : Value → Program State Ending Next)
    (state : State) : (finish ending >>= next).run state = [(state, .error ending)] :=
  bind_of_error next rfl

theorem fork_run (child parent : State → State) (next : Bool → Program State Ending Next)
    (state : State) :
    (fork child parent >>= next).run state =
      (next true).run (child state) ++ (next false).run (parent state) := by
  rw [bind_run, fork, List.flatMap_cons, List.flatMap_singleton, continued, continued]

theorem bind_assoc {Last : Type} (first : Program State Ending Value)
    (next : Value → Program State Ending Next) (last : Next → Program State Ending Last) :
    (first >>= next >>= last) = (first >>= fun value => next value >>= last) := by
  apply Program.ext
  funext state
  rw [bind_run, bind_run, bind_run, List.flatMap_assoc]
  apply congrArg (fun change => (first.run state).flatMap change)
  funext outcome
  rcases outcome with ⟨after, result⟩
  cases result with
  | error ending => rw [continued, List.flatMap_singleton, continued, continued]
  | ok value => rfl

/-! ## What every process keeps -/

/-- What holds of the state holds of all processes the program turns it into. -/
def Keeps (invariant : State → Prop) (program : Program State Ending Value) : Prop :=
  ∀ state, invariant state → ∀ outcome ∈ program.run state, invariant outcome.1

variable {invariant : State → Prop}

theorem keeps_of_single {program : Program State Ending Value}
    (kept : ∀ state, invariant state → ∃ after result, program.run state = [(after, result)] ∧
      invariant after) : Keeps invariant program := by
  intro state holds outcome member
  obtain ⟨after, result, ran, held⟩ := kept state holds
  rw [ran, List.mem_singleton] at member
  rw [member]
  exact held

theorem keeps_pure (value : Value) : Keeps invariant (pure value : Program State Ending Value) :=
  keeps_of_single fun state holds => ⟨state, .ok value, rfl, holds⟩

theorem keeps_get : Keeps invariant (get : Program State Ending State) :=
  keeps_of_single fun state holds => ⟨state, .ok state, rfl, holds⟩

theorem keeps_modify {change : State → State}
    (kept : ∀ state, invariant state → invariant (change state)) :
    Keeps invariant (modify change : Program State Ending Unit) :=
  keeps_of_single fun state holds => ⟨change state, .ok (), rfl, kept state holds⟩

theorem keeps_finish (ending : Ending) :
    Keeps invariant (finish ending : Program State Ending Value) :=
  keeps_of_single fun state holds => ⟨state, .error ending, rfl, holds⟩

theorem keeps_fork {child parent : State → State}
    (keptChild : ∀ state, invariant state → invariant (child state))
    (keptParent : ∀ state, invariant state → invariant (parent state)) :
    Keeps invariant (fork child parent : Program State Ending Bool) := by
  intro state holds outcome member
  rw [fork, List.mem_cons, List.mem_singleton] at member
  cases member with
  | inl isChild =>
      rw [isChild]
      exact keptChild state holds
  | inr isParent =>
      rw [isParent]
      exact keptParent state holds

theorem keeps_bind {first : Program State Ending Value} {next : Value → Program State Ending Next}
    (keepsFirst : Keeps invariant first) (keepsNext : ∀ value, Keeps invariant (next value)) :
    Keeps invariant (first >>= next) := by
  intro state holds outcome member
  rw [bind_run, List.mem_flatMap] at member
  obtain ⟨⟨middle, result⟩, reached, member⟩ := member
  have held := keepsFirst state holds _ reached
  cases result with
  | error ending =>
      rw [continued, List.mem_singleton] at member
      rw [member]
      exact held
  | ok value => exact keepsNext value middle held outcome member

/-! ## What holds before and after -/

/-- A process that goes on is in such a state with its value, and one that has
ended in such a state with its ending. -/
def Meets (after : Value → State → Prop) (ended : Ending → State → Prop) :
    Outcome State Ending Value → Prop
  | (state, .ok value) => after value state
  | (state, .error ending) => ended ending state

def Ensures (before : State → Prop) (program : Program State Ending Value)
    (after : Value → State → Prop) (ended : Ending → State → Prop) : Prop :=
  ∀ state, before state → ∀ outcome ∈ program.run state, Meets after ended outcome

variable {before : State → Prop} {after : Value → State → Prop} {ended : Ending → State → Prop}

theorem ensures_of_single {program : Program State Ending Value}
    (each : ∀ state, before state → ∃ outcome, program.run state = [outcome] ∧
      Meets after ended outcome) : Ensures before program after ended := by
  intro state holds outcome member
  obtain ⟨only, ran, meets⟩ := each state holds
  rw [ran, List.mem_singleton] at member
  rw [member]
  exact meets

theorem ensures_pure {value : Value} (here : ∀ state, before state → after value state) :
    Ensures before (pure value : Program State Ending Value) after ended :=
  ensures_of_single fun state holds => ⟨(state, .ok value), rfl, here state holds⟩

theorem ensures_modify {change : State → State} {after : Unit → State → Prop}
    (changed : ∀ state, before state → after () (change state)) :
    Ensures before (modify change : Program State Ending Unit) after ended :=
  ensures_of_single fun state holds => ⟨(change state, .ok ()), rfl, changed state holds⟩

theorem ensures_finish {ending : Ending} (here : ∀ state, before state → ended ending state) :
    Ensures before (finish ending : Program State Ending Value) after ended :=
  ensures_of_single fun state holds => ⟨(state, .error ending), rfl, here state holds⟩

theorem ensures_fork {child parent : State → State} {after : Bool → State → Prop}
    (inChild : ∀ state, before state → after true (child state))
    (inParent : ∀ state, before state → after false (parent state)) :
    Ensures before (fork child parent : Program State Ending Bool) after ended := by
  intro state holds outcome member
  rw [fork, List.mem_cons, List.mem_singleton] at member
  cases member with
  | inl isChild =>
      rw [isChild]
      exact inChild state holds
  | inr isParent =>
      rw [isParent]
      exact inParent state holds

/-- A program that reads the state first knows which state it has read. -/
theorem ensures_get {next : State → Program State Ending Next} {after : Next → State → Prop}
    (each : ∀ read, before read → Ensures (fun state => state = read) (next read) after ended) :
    Ensures before (get >>= next) after ended := by
  intro state holds outcome member
  rw [get_run] at member
  exact each state holds state rfl outcome member

theorem ensures_bind {first : Program State Ending Value} {next : Value → Program State Ending Next}
    {last : Next → State → Prop} (ensuresFirst : Ensures before first after ended)
    (ensuresNext : ∀ value, Ensures (after value) (next value) last ended) :
    Ensures before (first >>= next) last ended := by
  intro state holds outcome member
  rw [bind_run, List.mem_flatMap] at member
  obtain ⟨⟨middle, result⟩, reached, member⟩ := member
  have met := ensuresFirst state holds _ reached
  cases result with
  | error ending =>
      rw [continued, List.mem_singleton] at member
      rw [member]
      exact met
  | ok value => exact ensuresNext value middle met outcome member

theorem ensures_knowing {fact : Prop} {program : Program State Ending Value}
    (known : fact → Ensures before program after ended) :
    Ensures (fun state => fact ∧ before state) program after ended :=
  fun state holds => known holds.1 state holds.2

end Sysprog.Processes
