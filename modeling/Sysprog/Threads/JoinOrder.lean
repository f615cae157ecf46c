import Sysprog.Threads.TaskLives

/-!
# A join and its push

`thread_task_join` waits for two flags that `thread_pool_push_task` never
resets, and frees the result. After the first execution the flags tell of the
execution asked for only while it is in progress or once it is over.
-/

namespace Sysprog.Threads.JoinOrder

open CheckedRuns Accesses AccessInvariants TaskLives
open Pool (ThreadTask threadPoolNew newPool threadTaskNew tpoolMaxTasks)
open Deliveries (waitingCells)

set_option autoImplicit false

/-- Never finished before, and pushed once. -/
def Awaited (life : Life) (cell : ThreadTask Nat) : Prop :=
  cell.isFinished = false ∧ life.entries ≤ 1

def Rerunning (life : Life) (cell : ThreadTask Nat) : Prop :=
  cell.isRunning = true ∧ life.waiting = 0

/-- Executed as often as pushed, with the last result still there. -/
def Settled (results : Heap Int) (life : Life) (cell : ThreadTask Nat) : Prop :=
  ¬ life.Used ∧ ∀ address, cell.ret = some address → ∃ value, results.read address = some value

/-- What the flags tell of is the execution asked for. -/
def Settling (results : Heap Int) (life : Life) (cell : ThreadTask Nat) : Prop :=
  Rerunning life cell ∨ Settled results life cell

/-- A join that comes now waits for the last push. -/
def JoinReady (machine : Machine) (task : Nat) : Prop :=
  ∃ cell, machine.tasks.read task = some cell ∧
    (Awaited (lifeOf machine task) cell ∨ Settling machine.results (lifeOf machine task) cell)

/-- One client pushes and joins the task, and nobody deletes it. -/
def JoinsAlone (client task : Nat) (_ : History) (_ : Machine) : Step → Prop
  | .push other (some pushed) => pushed = task → other = client
  | .join other (some joined) => joined = task → other = client
  | .delete _ (some deleted) => deleted ≠ task
  | _ => True

def JoinsWhenReady (client task : Nat) (history : History) (machine : Machine) (step : Step) :
    Prop :=
  JoinsAlone client task history machine step ∧
    (step = .join client (some task) → JoinReady machine task)

def callOf : Within → Option Nat
  | .pushing task => some task
  | .readingFinished task => some task
  | .readingRunning task => some task
  | .copying task => some task
  | .freeing task _ => some task
  | _ => none

def HandLive (results : Heap Int) (life : Life) : Prop :=
  (∀ task address, life.hand = some (.returned task (some address)) →
    ∃ value, results.read address = some value) ∧
  ∀ task cell address, life.hand = some (.stored task) ∨ life.hand = some (.finished task) →
    life.cell = some cell → cell.ret = some address → ∃ value, results.read address = some value

structure JoinsInOrder (client task : Nat) (machine : Machine) : Prop where
  alone : ∀ other, callOf (machine.clients other) = some task → other = client
  kept : ∀ other, machine.clients other ≠ .deleting task
  live : HandLive machine.results (lifeOf machine task)
  ready : machine.clients client = .readingFinished task → JoinReady machine task
  settling : machine.clients client = .readingRunning task → ∃ cell,
    machine.tasks.read task = some cell ∧ Settling machine.results (lifeOf machine task) cell
  settled : machine.clients client = .copying task → ∃ cell,
    machine.tasks.read task = some cell ∧ Settled machine.results (lifeOf machine task) cell
  freeing : ∀ value, machine.clients client = .freeing task value → ∃ cell address,
    machine.tasks.read task = some cell ∧ ¬ (lifeOf machine task).Used ∧
      cell.ret = some address ∧ machine.results.read address = some value

/-! ## Lives of a task without pushes and deletes -/

theorem unused_kept {task : Nat} {report : Report} {life after : Life} {cell : ThreadTask Nat}
    (lives : Lives task report life after) (unused : ¬ life.Used) (present : life.cell = some cell)
    (notPushed : report ≠ .pushed task) (notFreed : report ≠ .freed task) : after = life := by
  cases lives with
  | other => rfl
  | made new =>
      rw [new] at present
      cases present
  | pushed => exact absurd rfl notPushed
  | freed => exact absurd rfl notFreed
  | took waits free => exact absurd (.inl (by omega)) unused
  | executed calling => exact absurd (.inr (by rw [calling]; exact nofun)) unused
  | accessed hand _ _ _ => exact absurd (.inr (by rw [hand]; exact nofun)) unused

section Kept

variable {task : Nat} {report : Report} {life after : Life} {cell : ThreadTask Nat}
  {results later : Heap Int}

/-- Whoever has the task in hand, behind `is_running = true`. -/
def RunningInHand (life : Life) (task : Nat) : Prop :=
  ∀ place cell, life.hand = some place → place ≠ .taken task → life.cell = some cell →
    cell.isRunning = true

theorem hand_of_unlocking (task : Nat) : handOf .unlocking task = none := rfl

theorem settling_kept (lives : Lives task report life after) (live : HandLive results life)
    (present : life.cell = some cell) (settling : Settling results life cell)
    (notPushed : report ≠ .pushed task) (notFreed : report ≠ .freed task)
    (kept : ∀ address value, cell.ret = some address → results.read address = some value →
      later.read address = some value) :
    ∃ changed, after.cell = some changed ∧ Settling later after changed := by
  rcases settling with ⟨running, notWaiting⟩ | ⟨unused, there⟩
  · cases lives with
    | other => exact ⟨cell, present, .inl ⟨running, notWaiting⟩⟩
    | made new =>
        rw [new] at present
        cases present
    | pushed => exact absurd rfl notPushed
    | freed => exact absurd rfl notFreed
    | took waits free => omega
    | executed calling => exact ⟨cell, present, .inl ⟨running, notWaiting⟩⟩
    | accessed hand isTask found access =>
        rw [present] at found
        cases found
        rcases access_cases isTask access with ⟨_, _, rfl⟩ | ⟨res, _, _, rfl⟩ | ⟨_, _, rfl⟩ |
          ⟨rfl, rfl, rfl⟩
        · exact ⟨_, rfl, .inl ⟨rfl, notWaiting⟩⟩
        · exact ⟨_, rfl, .inl ⟨running, notWaiting⟩⟩
        · exact ⟨_, rfl, .inl ⟨running, notWaiting⟩⟩
        · refine ⟨_, rfl, .inr ⟨?_, ?_⟩⟩
          · intro used
            rcases used with waits | inHand
            · exact absurd notWaiting (Nat.ne_of_gt waits)
            · exact inHand (hand_of_unlocking task)
          · intro address ret
            obtain ⟨value, read⟩ := live.2 task cell address (.inr hand) present ret
            exact ⟨value, kept address value ret read⟩
  · have same := unused_kept lives unused present notPushed notFreed
    rw [same]
    refine ⟨cell, present, .inr ⟨unused, ?_⟩⟩
    intro address ret
    obtain ⟨value, read⟩ := there address ret
    exact ⟨value, kept address value ret read⟩

theorem entries_in_hand (life : Life) {place : Place} (hand : life.hand = some place) :
    life.entries = life.waiting + 1 := by
  rw [Life.entries, hand, if_neg nofun]

theorem awaited_kept (lives : Lives task report life after) (running : RunningInHand life task)
    (present : life.cell = some cell) (awaited : Awaited life cell)
    (notPushed : report ≠ .pushed task) (notFreed : report ≠ .freed task) :
    ∃ changed, after.cell = some changed ∧ (Awaited after changed ∨ Rerunning after changed) := by
  obtain ⟨unfinished, few⟩ := awaited
  cases lives with
  | other => exact ⟨cell, present, .inl ⟨unfinished, few⟩⟩
  | made new =>
      rw [new] at present
      cases present
  | pushed => exact absurd rfl notPushed
  | freed => exact absurd rfl notFreed
  | took waits free =>
      refine ⟨cell, present, .inl ⟨unfinished, ?_⟩⟩
      rw [Life.entries, waits, free, if_pos rfl] at few
      rw [entries_in_hand _ rfl]
      exact few
  | executed calling =>
      refine ⟨cell, present, .inl ⟨unfinished, ?_⟩⟩
      rw [entries_in_hand life calling] at few
      rw [entries_in_hand _ rfl]
      exact few
  | @accessed _ before next found changed hand isTask stands access =>
      rw [present] at stands
      cases stands
      rw [entries_in_hand life hand] at few
      have fewer : life.waiting + (if handOf next task = none then 0 else 1) ≤ 1 := by
        split_ifs
        · omega
        · exact few
      rcases access_cases isTask access with ⟨_, _, rfl⟩ | ⟨res, _, _, rfl⟩ | ⟨rfl, _, rfl⟩ |
        ⟨_, _, rfl⟩
      · exact ⟨_, rfl, .inl ⟨unfinished, fewer⟩⟩
      · exact ⟨_, rfl, .inl ⟨unfinished, fewer⟩⟩
      · have isRunning := running _ _ hand nofun present
        exact ⟨_, rfl, .inr ⟨isRunning, by dsimp only; omega⟩⟩
      · exact ⟨_, rfl, .inl ⟨unfinished, fewer⟩⟩

end Kept

/-! ## Calls -/

section Calls

variable {machine next : Machine} {client task : Nat} {step : Step} {report : Report}
  {before : Within}

theorem call_kept {after : Within} (call : CallStep machine client step report next before after)
    (isCall : callOf after = some task) :
    callOf before = some task ∨ step = .push client (some task) ∨ step = .join client (some task) := by
  cases call with
  | other => exact .inl isCall
  | moved moves only =>
      cases moves with
      | pushing =>
          cases isCall
          exact .inr (.inl rfl)
      | joining =>
          cases isCall
          exact .inr (.inr rfl)
      | deleting _ _ => cases isCall
      | _ => exact .inl isCall
  | _ => cases isCall

end Calls

/-! ## Steps -/

section Steps

variable {pushes : Nat → Nat} {executions : Nat → List (Option (Nat × Int))}
  {machine next : Machine} {client task : Nat} {step : Step} {report : Report}

theorem pushing_of_push (order : JoinsInOrder client task machine)
    (effect : Effect machine step (.pushed task) next) : machine.clients client = .pushing task := by
  obtain ⟨actor, _, place⟩ := pusher effect
  have same : actor = client := order.alone actor (by rw [place]; rfl)
  rw [same] at place
  exact place

theorem freeing_of_join {value : Int} (order : JoinsInOrder client task machine)
    (effect : Effect machine step (.joined task value) next) :
    machine.clients client = .freeing task value ∧ next.clients client = .outside := by
  obtain ⟨actor, _, place, returned⟩ := joiner effect
  have same : actor = client := order.alone actor (by rw [place]; rfl)
  rw [same] at place returned
  exact ⟨place, returned⟩

theorem result_kept_in_hand (holds : Consistent pushes executions machine)
    (order : JoinsInOrder client task machine) (effect : Effect machine step report next)
    (inHand : (lifeOf machine task).hand ≠ none) {address : Nat} {value : Int}
    (own : ∃ found, some (address, found) ∈ executions task)
    (read : machine.results.read address = some value) : next.results.read address = some value := by
  apply own_result_kept holds effect own _ read
  intro found isJoin
  rw [isJoin] at effect
  have freeing := (freeing_of_join order effect).1
  obtain ⟨_, _, _, unused, _⟩ := order.freeing found freeing
  exact unused (.inr inHand)

theorem hand_live_kept (holds : Consistent pushes executions machine)
    (order : JoinsInOrder client task machine) (effect : Effect machine step report next) :
    HandLive next.results (lifeOf machine task) := by
  have keeps : ∀ address value place, (lifeOf machine task).hand = some place →
      (∃ found, some (address, found) ∈ executions task) →
        machine.results.read address = some value → next.results.read address = some value := by
    intro address value place hand own read
    apply result_kept_in_hand holds order effect _ own read
    rw [hand]
    exact nofun
  constructor
  · intro other address hand
    obtain ⟨value, read⟩ := order.live.1 other address hand
    obtain ⟨here, isTask⟩ := place_of_hand hand
    rw [here] at isTask
    cases isTask
    have own := mem_of_last_result (holds.returned task _ here).symm
    exact ⟨value, keeps address value _ hand own read⟩
  · intro other cell address hand present ret
    obtain ⟨value, read⟩ := order.live.2 other cell address hand present ret
    have own := holds.retOwned task cell address present ret
    rcases hand with hand | hand
    · exact ⟨value, keeps address value _ hand own read⟩
    · exact ⟨value, keeps address value _ hand own read⟩

theorem hand_live_of_place {results : Heap Int} {life : Life} {place : Place}
    (hand : life.hand = handOf place task) (notReturned : ∀ other res, place ≠ .returned other res)
    (notStored : ∀ other, place ≠ .stored other ∧ place ≠ .finished other) :
    HandLive results life := by
  constructor
  · intro other address inHand
    rw [hand] at inHand
    exact absurd (place_of_hand inHand).1 (notReturned other _)
  · intro other cell address inHand
    rw [hand] at inHand
    rcases inHand with inHand | inHand
    · exact absurd (place_of_hand inHand).1 (notStored other).1
    · exact absurd (place_of_hand inHand).1 (notStored other).2

theorem hand_of_task {place : Place} (isTask : place.task? = some task) :
    handOf place task = some place := by
  rw [handOf, if_pos isTask]

/-- An execution puts its result in hand, the store of `ret` hands it on. -/
theorem hand_live_lives {results : Heap Int} {life after : Life}
    (lives : Lives task report life after) (live : HandLive results life)
    (made : ∀ address value, report = .executed task (some (address, value)) →
      results.read address = some value) : HandLive results after := by
  cases lives with
  | other => exact live
  | made new =>
      refine ⟨live.1, ?_⟩
      intro other cell address _ present ret
      cases present
      cases ret
  | pushed => exact live
  | freed =>
      refine ⟨live.1, ?_⟩
      intro other cell address _ present
      cases present
  | took waits free => exact hand_live_of_place (hand_of_task rfl).symm nofun fun _ => ⟨nofun, nofun⟩
  | @executed _ res calling =>
      constructor
      · intro other address hand
        cases res with
        | none => cases hand
        | some result =>
            cases hand
            exact ⟨_, made _ _ rfl⟩
      · intro other cell address hand
        rcases hand with hand | hand <;> cases hand
  | accessed hand isTask present access =>
      rcases access_cases isTask access with ⟨_, rfl, rfl⟩ | ⟨res, rfl, rfl, rfl⟩ | ⟨rfl, rfl, rfl⟩ |
        ⟨_, rfl, rfl⟩
      · exact hand_live_of_place rfl nofun fun _ => ⟨nofun, nofun⟩
      · constructor
        · intro other address afterHand
          cases (place_of_hand afterHand).1
        · intro other cell address _ stored ret
          cases stored
          have returned : res = some address := ret
          rw [returned] at hand
          exact live.1 _ address hand
      · constructor
        · intro other address afterHand
          cases (place_of_hand afterHand).1
        · intro other cell address _ stored ret
          cases stored
          exact live.2 _ _ address (.inl hand) present ret
      · exact @hand_live_of_place task _ _ .unlocking rfl nofun fun _ => ⟨nofun, nofun⟩

theorem hand_live_step (holds : Consistent pushes executions machine)
    (order : JoinsInOrder client task machine) (effect : Effect machine step report next) :
    HandLive next.results (lifeOf next task) := by
  apply hand_live_lives (step_lives holds effect task) (hand_live_kept holds order effect)
  intro address value isExecuted
  rw [isExecuted] at effect
  exact executed_live effect

theorem no_push_or_join (order : JoinsInOrder client task machine)
    (effect : Effect machine step report next)
    (notPushing : machine.clients client ≠ .pushing task)
    (notFreeing : ∀ value, machine.clients client ≠ .freeing task value) :
    report ≠ .pushed task ∧ ∀ value, report ≠ .joined task value := by
  constructor
  · intro isPush
    rw [isPush] at effect
    exact notPushing (pushing_of_push order effect)
  · intro value isJoin
    rw [isJoin] at effect
    exact notFreeing value (freeing_of_join order effect).1

theorem no_delete (order : JoinsInOrder client task machine)
    (effect : Effect machine step report next) : report ≠ .freed task := by
  intro isFree
  rw [isFree] at effect
  obtain ⟨actor, place, _⟩ := freer effect
  exact order.kept actor place

/-- What the results of the task keep while its client waits. -/
theorem ret_kept (holds : Consistent pushes executions machine)
    (effect : Effect machine step report next) {cell : ThreadTask Nat}
    (present : machine.tasks.read task = some cell)
    (notJoined : ∀ value, report ≠ .joined task value) (address : Nat) (value : Int)
    (ret : cell.ret = some address) (read : machine.results.read address = some value) :
    next.results.read address = some value :=
  own_result_kept holds effect (holds.retOwned task cell address present ret) notJoined read

theorem running_in_hand (holds : Consistent pushes executions machine) :
    RunningInHand (lifeOf machine task) task := by
  intro here cell hand notTaken present
  obtain ⟨same, isTask⟩ := place_of_hand hand
  apply (holds.running task cell present).mpr
  rw [same]
  rw [same] at isTask
  exact ⟨isTask, notTaken⟩

/-- A join that waits for the right execution goes on to do so. -/
theorem ready_step (holds : Consistent pushes executions machine)
    (order : JoinsInOrder client task machine) (effect : Effect machine step report next)
    (waits : machine.clients client = .readingFinished task) (ready : JoinReady machine task) :
    JoinReady next task := by
  obtain ⟨notPushed, notJoined⟩ := no_push_or_join order effect (by rw [waits]; exact nofun)
    (by rw [waits]; exact nofun)
  have lives := step_lives holds effect task
  have notFreed := no_delete order effect
  obtain ⟨cell, present, awaited | settling⟩ := ready
  · obtain ⟨changed, found, now⟩ := awaited_kept lives (running_in_hand holds) present awaited
      notPushed notFreed
    refine ⟨changed, found, ?_⟩
    rcases now with awaited | rerunning
    · exact .inl awaited
    · exact .inr (.inl rerunning)
  · obtain ⟨changed, found, now⟩ := settling_kept lives order.live present settling notPushed notFreed
      (ret_kept holds effect present notJoined)
    exact ⟨changed, found, .inr now⟩

theorem settling_step (holds : Consistent pushes executions machine)
    (order : JoinsInOrder client task machine) (effect : Effect machine step report next)
    (waits : machine.clients client = .readingRunning task) {cell : ThreadTask Nat}
    (present : machine.tasks.read task = some cell)
    (settling : Settling machine.results (lifeOf machine task) cell) :
    ∃ changed, next.tasks.read task = some changed ∧
      Settling next.results (lifeOf next task) changed := by
  obtain ⟨notPushed, notJoined⟩ := no_push_or_join order effect (by rw [waits]; exact nofun)
    (by rw [waits]; exact nofun)
  exact settling_kept (step_lives holds effect task) order.live present settling notPushed
    (no_delete order effect) (ret_kept holds effect present notJoined)

theorem unused_step (holds : Consistent pushes executions machine)
    (order : JoinsInOrder client task machine) (effect : Effect machine step report next)
    (notPushed : report ≠ .pushed task) {cell : ThreadTask Nat}
    (present : machine.tasks.read task = some cell) (unused : ¬ (lifeOf machine task).Used) :
    next.tasks.read task = some cell ∧ ¬ (lifeOf next task).Used := by
  have same := unused_kept (step_lives holds effect task) unused present notPushed
    (no_delete order effect)
  have cells : next.tasks.read task = machine.tasks.read task := congrArg Life.cell same
  rw [cells, same]
  exact ⟨present, unused⟩

theorem settled_step (holds : Consistent pushes executions machine)
    (order : JoinsInOrder client task machine) (effect : Effect machine step report next)
    (waits : next.clients client = .copying task) : ∃ cell, next.tasks.read task = some cell ∧
      Settled next.results (lifeOf next task) cell := by
  have call := step_calls effect client
  rw [waits] at call
  rcases to_copying call with before | ⟨before, _, _, rfl, cell, present, idle⟩
  · obtain ⟨cell, present, unused, there⟩ := order.settled before
    obtain ⟨notPushed, notJoined⟩ := no_push_or_join order effect (by rw [before]; exact nofun)
      (by rw [before]; exact nofun)
    obtain ⟨kept, still⟩ := unused_step holds order effect notPushed present unused
    refine ⟨cell, kept, still, ?_⟩
    intro address ret
    obtain ⟨value, read⟩ := there address ret
    exact ⟨value, ret_kept holds effect present notJoined address value ret read⟩
  · obtain ⟨found, there, settling⟩ := order.settling before
    rw [present] at there
    cases there
    rcases settling with ⟨running, _⟩ | settled
    · rw [idle] at running
      cases running
    · exact ⟨cell, present, settled⟩

theorem freeing_step (holds : Consistent pushes executions machine)
    (order : JoinsInOrder client task machine) (effect : Effect machine step report next) {value : Int}
    (waits : next.clients client = .freeing task value) : ∃ cell address,
      next.tasks.read task = some cell ∧ ¬ (lifeOf next task).Used ∧
        cell.ret = some address ∧ next.results.read address = some value := by
  have call := step_calls effect client
  rw [waits] at call
  rcases to_freeing call with before | ⟨before, rfl, cell, address, present, ret, read⟩
  · obtain ⟨cell, address, present, unused, ret, read⟩ := order.freeing value before
    have notPushed : report ≠ .pushed task := by
      intro isPush
      rw [isPush] at effect
      have place := pushing_of_push order effect
      rw [before] at place
      cases place
    have notJoined : ∀ found, report ≠ .joined task found := by
      intro found isJoin
      rw [isJoin] at effect
      have returned := (freeing_of_join order effect).2
      rw [waits] at returned
      cases returned
    obtain ⟨kept, still⟩ := unused_step holds order effect notPushed present unused
    exact ⟨cell, address, kept, still, ret, ret_kept holds effect present notJoined address value ret read⟩
  · obtain ⟨found, there, unused, _⟩ := order.settled before
    rw [present] at there
    cases there
    exact ⟨cell, address, present, unused, ret, read⟩

theorem joins_in_order_step {history : History} (holds : Consistent pushes executions machine)
    (order : JoinsInOrder client task machine)
    (permitted : JoinsWhenReady client task history machine step)
    (effect : Effect machine step report next) : JoinsInOrder client task next := by
  have call := step_calls effect client
  constructor
  · intro other isCall
    rcases call_kept (step_calls effect other) isCall with before | rfl | rfl
    · exact order.alone other before
    · exact permitted.1 rfl
    · exact permitted.1 rfl
  · intro other isDelete
    have calls := step_calls effect other
    rw [isDelete] at calls
    rcases to_deleting calls with before | ⟨rfl, _⟩
    · exact order.kept other before
    · exact permitted.1 rfl
  · exact hand_live_step holds order effect
  · intro waits
    rw [waits] at call
    rcases to_reading_finished call with before | ⟨rfl, rfl⟩ | ⟨before, rfl⟩
    · exact ready_step holds order effect before (order.ready before)
    · exact permitted.2 rfl
    · obtain ⟨cell, present, settling⟩ := order.settling before
      exact ⟨cell, present, .inr settling⟩
  · intro waits
    rw [waits] at call
    rcases to_reading_running call with before | ⟨before, rfl, cell, present, isFinished⟩
    · obtain ⟨cell, present, settling⟩ := order.settling before
      exact settling_step holds order effect before present settling
    · obtain ⟨found, there, ready⟩ := order.ready before
      rw [present] at there
      cases there
      rcases ready with ⟨unfinished, _⟩ | settling
      · rw [isFinished] at unfinished
        cases unfinished
      · exact ⟨cell, present, settling⟩
  · intro waits
    exact settled_step holds order effect waits
  · intro value waits
    exact freeing_step holds order effect waits

end Steps

/-! ## Runs -/

theorem joins_in_order_initial (client task : Nat) (maxThreadCount : Int) :
    JoinsInOrder client task (start (newPool Nat maxThreadCount)) := by
  constructor
  · intro other isCall
    cases isCall
  · intro other isDelete
    cases isDelete
  · constructor
    · intro other address hand
      cases hand
    · intro other cell address hand
      rcases hand with hand | hand <;> cases hand
  · intro waits
    cases waits
  · intro waits
    cases waits
  · intro waits
    cases waits
  · intro value waits
    cases waits

theorem run_joins_in_order {client task : Nat} {maxThreadCount : Int} {history : History}
    {machine : Machine}
    (run : Run perform (JoinsWhenReady client task) (start (newPool Nat maxThreadCount)) history
      machine) : Tracks history machine ∧ JoinsInOrder client task machine := by
  apply run_invariant (fun history machine => Tracks history machine ∧ JoinsInOrder client task machine)
    _ _ run
  · exact ⟨consistent_initial maxThreadCount, joins_in_order_initial client task maxThreadCount⟩
  · intro history machine step report next held permitted performed
    obtain ⟨holds, order⟩ := held
    have effect := perform_effect performed
    exact ⟨tracks_step holds effect, joins_in_order_step holds order permitted effect⟩

/-- What is asked of the joins of a task: one that returns comes after as many
executions as pushes with the `int` of the last of them, it never touches a
result that is freed, and the task is not pushed while its client waits. -/
structure JoinBelongs (client task : Nat) (history : History) (machine : Machine) : Prop where
  ordered : ∀ value next, perform machine (.advance client) = .ok (.joined task value, next) →
    (executionsOf history task).length = pushesOf history task ∧
      ∃ address, (executionsOf history task).getLast? = some (some (address, value))
  unfreed : (machine.clients client = .copying task ∨
      ∃ value, machine.clients client = .freeing task value) →
    perform machine (.advance client) ≠ .error .freedResult
  samePush : callOf (machine.clients client) = some task →
    machine.clients client ≠ .pushing task → ∀ step report next,
      perform machine step = .ok (report, next) → report ≠ .pushed task

theorem belongs_of_in_order {client task : Nat} {history : History} {machine : Machine}
    (holds : Tracks history machine) (order : JoinsInOrder client task machine) :
    JoinBelongs client task history machine := by
  constructor
  · intro value next performed
    have effect := perform_effect performed
    have place := (freeing_of_join order effect).1
    obtain ⟨cell, address, present, unused, ret, read⟩ := order.freeing value place
    rw [used_iff] at unused
    refine ⟨(executed_of_unused holds unused).symm, address, ?_⟩
    have notReturned : ∀ res, AccessInvariants.place machine ≠ .returned task res := by
      intro res here
      apply unused
      apply Or.inr
      rw [here]
      rfl
    have last := holds.ret task cell present notReturned
    rw [ret] at last
    obtain ⟨found, final⟩ := final_of_last_result last.symm
    have member := List.mem_of_getLast? final
    rw [holds.values task address found value member read]
    exact final
  · intro waits failed
    rcases waits with place | ⟨value, place⟩
    · obtain ⟨cell, present, _, there⟩ := order.settled place
      simp only [perform, clientStep, place, joinAccess, present, joinStep] at failed
      cases ret : cell.ret with
      | none => simp [ret] at failed
      | some address =>
          obtain ⟨value, read⟩ := there address ret
          simp [ret, read] at failed
    · obtain ⟨cell, address, present, _, ret, read⟩ := order.freeing value place
      simp [perform, clientStep, place, joinAccess, present, joinStep, ret, read] at failed
  · intro isCall notPushing step report next performed isPush
    rw [isPush] at performed
    exact notPushing (pushing_of_push order (perform_effect performed))

/-- In every run of one client's pushes and joins of a task with other calls
and the workers, in which the joins come when they are ready, each join
belongs to the push before it. -/
theorem joins_belong_when_ready {client task : Nat} {maxThreadCount : Int}
    {pool : Pool.ThreadPool Nat} {history : History} {machine : Machine}
    (created : threadPoolNew Nat maxThreadCount = .ok pool)
    (run : Run perform (JoinsWhenReady client task) (start pool) history machine) :
    JoinBelongs client task history machine := by
  obtain ⟨rfl, _⟩ := Deliveries.thread_pool_new_ok created
  obtain ⟨holds, order⟩ := run_joins_in_order run
  exact belongs_of_in_order holds order

theorem own_step {client task : Nat} {history : History} {machine : Machine} {step : Step}
    (own : isCall step = false ∨ ∃ other, step = .advance other) :
    JoinsWhenReady client task history machine step := by
  rcases own with quiet | ⟨other, rfl⟩
  · cases step with
    | create => exact ⟨trivial, nofun⟩
    | newTask => exact ⟨trivial, nofun⟩
    | work _ _ => exact ⟨trivial, nofun⟩
    | _ => cases quiet
  · exact ⟨trivial, nofun⟩

theorem ready_after_execution {machine : Machine} {task address : Nat} {value : Int}
    (present : machine.tasks.read task = some ⟨some address, true, false⟩)
    (result : machine.results.read address = some value) (nobody : machine.critical = none)
    (empty : (waitingCells machine.pool).count (some task) = 0) : JoinReady machine task := by
  refine ⟨_, present, .inr (.inr ⟨?_, ?_⟩)⟩
  · intro used
    rcases used with waits | inHand
    · exact absurd empty (Nat.ne_of_gt waits)
    · apply inHand
      simp only [lifeOf, place, nobody]
      rfl
  · intro own ret
    cases ret
    exact ⟨value, result⟩

/-- A task is pushed, executed and joined twice; the second join gives the
result of the second execution. -/
theorem second_join_belongs : ∃ history machine next,
    Run perform (JoinsWhenReady 0 0) (start (newPool Nat 1)) history machine ∧
      pushesOf history 0 = 2 ∧ executionsOf history 0 = [some (0, 5), some (1, 6)] ∧
      perform machine (.advance 0) = .ok (.joined 0 6, next) ∧
        JoinBelongs 0 0 history machine := by
  have executed : Run perform (JoinsWhenReady 0 0) (start (newPool Nat 1)) executedHistory
      executedOnce := by
    apply run_executed_once
    · exact fun _ _ _ quiet => own_step (.inl quiet)
    · exact fun _ _ _ => ⟨fun _ => rfl, nofun⟩
    · exact fun _ _ _ => own_step (.inr ⟨0, rfl⟩)
  have mine (history : History) (machine : Machine) :
      JoinsWhenReady 0 0 history machine (.advance 0) := own_step (.inr ⟨0, rfl⟩)
  have work (history : History) (machine : Machine) (returned : Option Int) :
      JoinsWhenReady 0 0 history machine (.work 0 returned) := own_step (.inl rfl)
  have joining := executed.call
    (by exact ⟨fun _ => rfl, fun _ => ready_after_execution rfl rfl rfl rfl⟩)
    (rfl : perform _ (.join 0 (some 0)) = .ok (_, _))
  have sawFinished := joining.call (mine _ _) (rfl : perform _ (.advance 0) = .ok (_, _))
  have waited := sawFinished.call (mine _ _) (rfl : perform _ (.advance 0) = .ok (_, _))
  have copied := waited.call (mine _ _) (rfl : perform _ (.advance 0) = .ok (_, _))
  have joined := copied.call (mine _ _) (rfl : perform _ (.advance 0) = .ok (_, _))
  -- the second round
  have pushing := joined.call (by exact ⟨fun _ => rfl, by rintro ⟨⟩⟩)
    (rfl : perform _ (.push 0 (some 0)) = .ok (_, _))
  have inside : 1 < ((List.replicate tpoolMaxTasks (none : Option Nat)).set 0 (some 0)).length := by
    rw [List.length_set, List.length_replicate]
    decide
  have pushed := pushing.call (mine _ _)
    (@push_locked_completes _ 0 0 rfl rfl rfl ⟨by decide, inside⟩)
  have taken := pushed.call (work _ _ _) (rfl : perform _ (.work 0 none) = .ok (_, _))
  have running := taken.call (work _ _ _) (rfl : perform _ (.work 0 none) = .ok (_, _))
  have called := running.call (work _ _ _) (rfl : perform _ (.work 0 (some 6)) = .ok (_, _))
  have stored := called.call (work _ _ _) (rfl : perform _ (.work 0 none) = .ok (_, _))
  have finished := stored.call (work _ _ _) (rfl : perform _ (.work 0 none) = .ok (_, _))
  have cleared := finished.call (work _ _ _) (rfl : perform _ (.work 0 none) = .ok (_, _))
  have left := cleared.call (work _ _ _) (rfl : perform _ (.work 0 none) = .ok (_, _))
  have again := left.call
    (by exact ⟨fun _ => rfl, fun _ => ready_after_execution rfl rfl rfl rfl⟩)
    (rfl : perform _ (.join 0 (some 0)) = .ok (_, _))
  have sawFinished := again.call (mine _ _) (rfl : perform _ (.advance 0) = .ok (_, _))
  have waited := sawFinished.call (mine _ _) (rfl : perform _ (.advance 0) = .ok (_, _))
  have copied := waited.call (mine _ _) (rfl : perform _ (.advance 0) = .ok (_, _))
  exact ⟨_, _, _, copied, rfl, rfl, rfl,
    joins_belong_when_ready (rfl : threadPoolNew Nat 1 = .ok _) copied⟩

theorem alone_push (history : History) (machine : Machine) :
    JoinsAlone 0 0 history machine (.push 0 (some 0)) := fun _ => rfl

theorem alone_join (history : History) (machine : Machine) :
    JoinsAlone 0 0 history machine (.join 0 (some 0)) := fun _ => rfl

/-- Pushed again, the task is still finished with the result that the first
join has freed, and the second join reads it before any worker takes the task. -/
theorem second_join_reads_freed : ∃ history machine,
    Run perform (JoinsAlone 0 0) (start (newPool Nat 1)) history machine ∧
      ¬ JoinBelongs 0 0 history machine := by
  have executed : Run perform (JoinsAlone 0 0) (start (newPool Nat 1)) executedHistory
      executedOnce := by
    apply run_executed_once
    · exact fun _ _ _ quiet => (own_step (.inl quiet)).1
    · exact fun _ _ _ => alone_push _ _
    · exact fun _ _ _ => (own_step (.inr ⟨0, rfl⟩)).1
  have joining := executed.call (alone_join _ _) (rfl : perform _ (.join 0 (some 0)) = .ok (_, _))
  have sawFinished := joining.call (own_step (.inr ⟨0, rfl⟩)).1
    (rfl : perform _ (.advance 0) = .ok (_, _))
  have waited := sawFinished.call (own_step (.inr ⟨0, rfl⟩)).1 (rfl : perform _ (.advance 0) = .ok (_, _))
  have copied := waited.call (own_step (.inr ⟨0, rfl⟩)).1 (rfl : perform _ (.advance 0) = .ok (_, _))
  have joined := copied.call (own_step (.inr ⟨0, rfl⟩)).1 (rfl : perform _ (.advance 0) = .ok (_, _))
  have pushing := joined.call (alone_push _ _) (rfl : perform _ (.push 0 (some 0)) = .ok (_, _))
  have inside : 1 < ((List.replicate tpoolMaxTasks (none : Option Nat)).set 0 (some 0)).length := by
    rw [List.length_set, List.length_replicate]
    decide
  have pushed := pushing.call (own_step (.inr ⟨0, rfl⟩)).1
    (@push_locked_completes _ 0 0 rfl rfl rfl ⟨by decide, inside⟩)
  have again := pushed.call (alone_join _ _) (rfl : perform _ (.join 0 (some 0)) = .ok (_, _))
  have sawOld := again.call (own_step (.inr ⟨0, rfl⟩)).1 (rfl : perform _ (.advance 0) = .ok (_, _))
  have ended := sawOld.call (own_step (.inr ⟨0, rfl⟩)).1 (rfl : perform _ (.advance 0) = .ok (_, _))
  refine ⟨_, _, ended, ?_⟩
  intro belongs
  exact belongs.unfreed (.inl rfl) rfl

end Sysprog.Threads.JoinOrder
