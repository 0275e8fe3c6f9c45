import Mathlib.Tactic

namespace PacedLog

/-!
# Events on a paced clock

A clock advances by a fixed pace, and at each of its times an event is logged
or not.  Events of one time are a pace or more apart, so a minimum distance of
at most two paces is kept as long as no two successive times have an event.
-/

/-- The time of a clock and the times of the events so far. -/
structure Log where
  now : Nat
  events : List Nat
  deriving Repr, DecidableEq

namespace Log

/-- Log an event or not, and advance the clock. -/
def tick (pace : Nat) (fired : Prop) [Decidable fired] (log : Log) : Log where
  now := log.now + pace
  events := if fired then log.events ++ [log.now] else log.events

/-- Every event is a positive number of paces ago. -/
def Paced (pace : Nat) (log : Log) : Prop :=
  ∀ event ∈ log.events, ∃ paces, 0 < paces ∧ event + paces * pace = log.now

/-- Each two events are at least a distance apart. -/
def Spaced (distance : Nat) (log : Log) : Prop :=
  log.events.Pairwise (fun event later => event + distance ≤ later)

variable
  {pace distance : Nat}
  {fired : Prop}
  [Decidable fired]
  {log : Log}

theorem paced_tick (paced : log.Paced pace) :
    (log.tick pace fired).Paced pace := by
  intro event member
  have earlier
      (inLog : event ∈ log.events) :
      ∃ paces, 0 < paces ∧ event + paces * pace = log.now + pace := by
    obtain ⟨paces, positive, reaches⟩ := paced event inLog
    exact ⟨paces + 1, Nat.succ_pos paces, by rw [add_one_mul]; omega⟩
  by_cases now : fired
  · simp only [tick, if_pos now, List.mem_append, List.mem_singleton] at member
    rcases member with inLog | isNow
    · exact earlier inLog
    · exact ⟨1, Nat.one_pos, by rw [isNow, one_mul]; rfl⟩
  · simp only [tick, if_neg now] at member
    exact earlier member

/-- An event now is far enough from an earlier one, unless that was just now. -/
theorem far_enough_iff
    (paced : log.Paced pace)
    (short : distance ≤ 2 * pace) :
    (∀ event ∈ log.events, event + distance ≤ log.now) ↔
      distance ≤ pace ∨ ∀ event ∈ log.events, event + pace ≠ log.now := by
  constructor
  · intro far
    by_contra! near
    obtain ⟨long, event, member, justNow⟩ := near
    have farEnough := far event member
    omega
  · rintro (close | notJustNow) event member
    · obtain ⟨paces, positive, reaches⟩ := paced event member
      have onePace : pace ≤ paces * pace :=
        Nat.le_mul_of_pos_left pace positive
      omega
    · obtain ⟨paces, positive, reaches⟩ := paced event member
      have notOne : paces ≠ 1 := by
        rintro rfl
        exact notJustNow event member (by rw [← reaches, one_mul])
      have twoPaces : 2 * pace ≤ paces * pace :=
        Nat.mul_le_mul_right pace (by omega)
      omega

/-- A tick keeps the distances when it has no event directly after another. -/
theorem spaced_tick_iff
    (paced : log.Paced pace)
    (short : distance ≤ 2 * pace)
    (spaced : log.Spaced distance) :
    (log.tick pace fired).Spaced distance ↔
      (fired →
        distance ≤ pace ∨ ∀ event ∈ log.events, event + pace ≠ log.now) := by
  by_cases now : fired
  · rw [← far_enough_iff paced short, forall_prop_of_true now, Spaced, tick]
    simp only [if_pos now, List.pairwise_append, List.pairwise_singleton,
      List.mem_singleton, forall_eq, true_and]
    exact and_iff_right spaced
  · rw [Spaced, tick]
    simp only [if_neg now]
    exact iff_of_true spaced (absurd · now)

end Log

end PacedLog
