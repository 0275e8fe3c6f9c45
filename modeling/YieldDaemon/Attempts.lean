import Mathlib.Data.List.Defs

namespace Attempts

/-!
# Attempts

Code that acts on the outside and may raise.  What it has posted before it
raises stays posted, and a handler goes on from there.
-/

/-- The requests that were posted, and what came of it. -/
structure Attempt (Posted Raised Value : Type) where
  posted : List Posted
  result : Except Raised Value

namespace Attempt

variable {Posted Raised Value Next : Type}

/-- Go on with the value, or pass on what was raised. -/
def andThen
    (attempt : Attempt Posted Raised Value)
    (next : Value → Attempt Posted Raised Next) :
    Attempt Posted Raised Next :=
  match attempt.result with
  | .ok value =>
      { posted := attempt.posted ++ (next value).posted
        result := (next value).result }
  | .error raised =>
      { posted := attempt.posted, result := .error raised }

instance : Monad (Attempt Posted Raised) where
  pure value := { posted := [], result := .ok value }
  bind := andThen

/-- A computation that posts nothing. -/
def ofExcept (result : Except Raised Value) : Attempt Posted Raised Value where
  posted := []
  result := result

/-- Post a request and take its answer. -/
def post
    (request : Posted)
    (answer : Except Raised Value) :
    Attempt Posted Raised Value where
  posted := [request]
  result := answer

/-- Go on after what was raised, if the handler takes it. -/
def handle
    (attempt : Attempt Posted Raised Value)
    (handler : Raised → Option Value) :
    Attempt Posted Raised Value where
  posted := attempt.posted
  result :=
    match attempt.result with
    | .ok value => .ok value
    | .error raised =>
        match handler raised with
        | some value => .ok value
        | none => .error raised

@[simp]
theorem posted_pure (value : Value) :
    (pure value : Attempt Posted Raised Value).posted = [] :=
  rfl

@[simp]
theorem result_pure (value : Value) :
    (pure value : Attempt Posted Raised Value).result = .ok value :=
  rfl

@[simp]
theorem posted_ofExcept (result : Except Raised Value) :
    (ofExcept result : Attempt Posted Raised Value).posted = [] :=
  rfl

@[simp]
theorem posted_handle
    (attempt : Attempt Posted Raised Value)
    (handler : Raised → Option Value) :
    (attempt.handle handler).posted = attempt.posted :=
  rfl

variable
  {attempt : Attempt Posted Raised Value}
  {next : Value → Attempt Posted Raised Next}
  {value : Value}
  {raised : Raised}

theorem bind_of_ok (returned : attempt.result = .ok value) :
    attempt >>= next =
      { posted := attempt.posted ++ (next value).posted
        result := (next value).result } := by
  change attempt.andThen next = _
  rw [andThen, returned]

theorem bind_of_error (failed : attempt.result = .error raised) :
    attempt >>= next =
      { posted := attempt.posted, result := .error raised } := by
  change attempt.andThen next = _
  rw [andThen, failed]

/-- A value comes from a value of the first part. -/
theorem result_bind_eq_ok {last : Next} :
    (attempt >>= next).result = .ok last ↔
      ∃ value,
        attempt.result = .ok value ∧ (next value).result = .ok last := by
  cases outcome : attempt.result with
  | ok value =>
      rw [bind_of_ok outcome]
      constructor
      · intro returned
        exact ⟨value, rfl, returned⟩
      · rintro ⟨other, same, returned⟩
        cases same
        exact returned
  | error raised =>
      rw [bind_of_error outcome]
      constructor
      · intro returned
        cases returned
      · rintro ⟨other, impossible, -⟩
        cases impossible

/-- What goes on without a request leaves the one that was posted. -/
theorem posted_post_bind
    {request : Posted}
    {answer : Except Raised Value}
    (quiet : ∀ value, (next value).posted = []) :
    (post request answer >>= next).posted = [request] := by
  cases answer with
  | ok value =>
      have returned :
          (post request (.ok value) : Attempt Posted Raised Value).result =
            .ok value :=
        rfl
      rw [bind_of_ok returned, quiet, List.append_nil]
      rfl
  | error raised => rfl

@[simp]
theorem result_ofExcept (result : Except Raised Value) :
    (ofExcept result : Attempt Posted Raised Value).result = result :=
  rfl

/-- Every request that is posted is allowed. -/
def Posts
    (allowed : Posted → Prop)
    (attempt : Attempt Posted Raised Value) : Prop :=
  ∀ request ∈ attempt.posted, allowed request

variable {allowed : Posted → Prop}

theorem Posts.pure :
    Posts allowed (Pure.pure value : Attempt Posted Raised Value) := by
  intro request member
  exact absurd member List.not_mem_nil

theorem Posts.ofExcept (result : Except Raised Value) :
    Posts allowed (ofExcept result : Attempt Posted Raised Value) := by
  intro request member
  exact absurd member List.not_mem_nil

theorem Posts.post
    {request : Posted}
    (isAllowed : allowed request)
    (answer : Except Raised Value) :
    Posts allowed (post request answer) := by
  intro other member
  rw [List.mem_singleton.mp member]
  exact isAllowed

theorem Posts.handle
    (first : Posts allowed attempt)
    (handler : Raised → Option Value) :
    Posts allowed (attempt.handle handler) :=
  first

theorem Posts.bind
    (first : Posts allowed attempt)
    (later : ∀ value, Posts allowed (next value)) :
    Posts allowed (attempt >>= next) := by
  cases outcome : attempt.result with
  | ok value =>
      rw [bind_of_ok outcome]
      intro request member
      rcases List.mem_append.mp member with inFirst | inLater
      · exact first request inFirst
      · exact later value request inLater
  | error raised =>
      rw [bind_of_error outcome]
      exact first

end Attempt

end Attempts
