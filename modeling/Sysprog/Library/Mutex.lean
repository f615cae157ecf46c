import Mathlib.Logic.Function.Basic

/-!
# Threads around a mutex

Each thread stands at some place, and `Inside` are the places between taking
the mutex and giving it back. `Exclusive` says that the thread inside is the
one recorded as the holder; every step of a thread that takes, keeps or gives
back the mutex in turn keeps it.
-/

namespace Sysprog.Mutex

set_option autoImplicit false

variable {Thread Place : Type*}

def Exclusive (Inside : Place → Prop) (places : Thread → Place) (holder : Option Thread) : Prop :=
  ∀ thread, Inside (places thread) ↔ holder = some thread

variable {Inside : Place → Prop} {places : Thread → Place} {holder : Option Thread}

theorem exclusive_free (outside : ∀ thread, ¬ Inside (places thread)) :
    Exclusive Inside places none := by
  intro thread
  constructor
  · exact fun inside => absurd inside (outside thread)
  · exact nofun

theorem holder_unique {first second : Thread} (exclusive : Exclusive Inside places holder)
    (held : holder = some first) (inside : Inside (places second)) : second = first := by
  have other := (exclusive second).mp inside
  rw [held] at other
  exact (Option.some.inj other).symm

theorem outside_of_free {thread : Thread} (exclusive : Exclusive Inside places none) :
    ¬ Inside (places thread) := by
  intro inside
  cases (exclusive thread).mp inside

variable [DecidableEq Thread] {thread : Thread} {place : Place}

/-- The thread goes on where it was, inside or outside. -/
theorem exclusive_move (exclusive : Exclusive Inside places holder)
    (same : Inside place ↔ Inside (places thread)) :
    Exclusive Inside (Function.update places thread place) holder := by
  intro other
  by_cases moved : other = thread
  · rw [moved, Function.update_self, same]
    exact exclusive thread
  · rw [Function.update_of_ne moved]
    exact exclusive other

theorem exclusive_take (exclusive : Exclusive Inside places none) (inside : Inside place) :
    Exclusive Inside (Function.update places thread place) (some thread) := by
  intro other
  by_cases moved : other = thread
  · rw [moved, Function.update_self]
    exact iff_of_true inside rfl
  · rw [Function.update_of_ne moved]
    refine iff_of_false (outside_of_free exclusive) ?_
    intro same
    exact moved (Option.some.inj same).symm

theorem exclusive_give (exclusive : Exclusive Inside places holder)
    (inside : Inside (places thread)) (outside : ¬ Inside place) :
    Exclusive Inside (Function.update places thread place) none := by
  apply exclusive_free
  intro other
  by_cases moved : other = thread
  · rw [moved, Function.update_self]
    exact outside
  · rw [Function.update_of_ne moved]
    intro both
    exact moved (holder_unique exclusive ((exclusive thread).mp inside) both)

end Sysprog.Mutex
