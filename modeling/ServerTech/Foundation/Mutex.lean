import Mathlib.Data.List.Basic

namespace ServerTech

/-!
# Re-entrant mutexes

A re-entrant mutex is free, or held by one thread a number of times.  The
second constructor counts the acquisitions after the first one, so that a
mutex that is held zero times cannot be written down.
-/

/-- A re-entrant mutex over thread numbers. -/
inductive Mutex where
  | free
  | held (owner : Nat) (again : Nat)
  deriving DecidableEq, Repr

namespace Mutex

/-- How many times a thread holds the mutex. -/
def depth : Mutex -> Nat -> Nat
  | free, _ => 0
  | held owner again, thread => if owner = thread then again + 1 else 0

/-- Take the mutex.  There is no result while another thread holds it. -/
def acquire : Mutex -> Nat -> Option Mutex
  | free, thread => some (held thread 0)
  | held owner again, thread => if owner = thread then some (held owner (again + 1)) else none

/-- Give the mutex back once. -/
def release : Mutex -> Mutex
  | free => free
  | held _ 0 => free
  | held owner (again + 1) => held owner again

/-- Only a thread that is alone can take the mutex, and it then holds it once
more. -/
theorem acquire_spec {mutex after : Mutex} {thread : Nat}
    (taken : mutex.acquire thread = some after) :
    after.depth thread = mutex.depth thread + 1 ∧
      forall other, other ≠ thread -> mutex.depth other = 0 ∧ after.depth other = 0 := by
  cases mutex with
  | free =>
      cases taken
      refine ⟨if_pos rfl, ?_⟩
      intro other apart
      exact ⟨rfl, if_neg (Ne.symm apart)⟩
  | held owner again =>
      simp only [acquire] at taken
      by_cases own : owner = thread
      · rw [if_pos own] at taken
        cases taken
        subst own
        refine ⟨?_, ?_⟩
        · simp only [depth, if_true]
        · intro other apart
          exact ⟨if_neg (Ne.symm apart), if_neg (Ne.symm apart)⟩
      · rw [if_neg own] at taken
        cases taken

/-- A release by the owner. -/
theorem release_spec {mutex : Mutex} {thread : Nat} (holds : 0 < mutex.depth thread) :
    mutex.release.depth thread + 1 = mutex.depth thread ∧
      forall other, other ≠ thread -> mutex.depth other = 0 ∧ mutex.release.depth other = 0 := by
  cases mutex with
  | free => exact absurd holds (Nat.lt_irrefl 0)
  | held owner again =>
      have own : owner = thread := by
        by_contra apart
        rw [depth, if_neg apart] at holds
        exact Nat.lt_irrefl 0 holds
      subst own
      cases again with
      | zero =>
          refine ⟨?_, ?_⟩
          · simp only [release, depth, if_true]
          · intro other apart
            exact ⟨if_neg (Ne.symm apart), rfl⟩
      | succ again =>
          refine ⟨?_, ?_⟩
          · simp only [release, depth, if_true]
          · intro other apart
            exact ⟨if_neg (Ne.symm apart), if_neg (Ne.symm apart)⟩

/-- Two threads never hold the mutex at the same time. -/
theorem depth_exclusive (mutex : Mutex) {thread other : Nat} (apart : other ≠ thread)
    (holds : 0 < mutex.depth thread) : mutex.depth other = 0 :=
  ((release_spec holds).2 other apart).1

end Mutex
end ServerTech
