import YieldDaemon.CheckedArithmetic

namespace WhileLoop

open CheckedArithmetic

/-!
# Loops that may run forever

A loop without a bound is run with some fuel, and has no result when the fuel
runs out.  It ends with a value when every large enough amount of fuel leads to
that value.  A loop ends when some measure of its state gets smaller in every
round, and what its rounds keep holds at the end.
-/

/-- A computation that returns a value, panics, or runs out of fuel. -/
abbrev Fueled (Value : Type) := OptionT Checked Value

/-- `while condition { body }`, where a round is run with the fuel left. -/
def whileLoop {State : Type}
    (condition : State → Checked Bool)
    (body : Nat → State → Fueled State) :
    Nat → State → Fueled State
  | 0, _ => failure
  | fuel + 1, state => do
    if ← condition state then
      let next ← body fuel state
      whileLoop condition body fuel next
    else
      return state

/-- How a round of a loop ends. -/
inductive Round (State Value : Type) where
  | goOn : State → Round State Value
  | break : Value → Round State Value

/-- `loop { body }`, which a round leaves with a value. -/
def loop {State Value : Type}
    (body : State → Checked (Round State Value)) :
    Nat → State → Fueled Value
  | 0, _ => failure
  | fuel + 1, state => do
    match ← body state with
    | .goOn next => loop body fuel next
    | .break value => return value

/-- A sequence returns a value exactly if both parts return one. -/
theorem bind_eq_pure
    {First Second : Type}
    {first : Fueled First}
    {next : First → Fueled Second}
    {result : Second} :
    first >>= next = pure result ↔
      ∃ middle, first = pure middle ∧ next middle = pure result := by
  constructor
  · intro returned
    match first, returned with
    | .ok (some middle), returned =>
        exact ⟨middle, rfl, returned⟩
    | .ok none, returned =>
        exact absurd (Except.ok.inj returned) nofun
    | .error panic, returned =>
        exact absurd returned nofun
  · rintro ⟨middle, rfl, returned⟩
    rw [pure_bind, returned]

theorem lift_eq_pure
    {Value : Type}
    {computed : Checked Value}
    {value : Value} :
    (liftM computed : Fueled Value) = pure value ↔ computed = .ok value := by
  constructor
  · intro returned
    match computed, returned with
    | .ok other, returned =>
        exact congrArg Except.ok (Option.some.inj (Except.ok.inj returned))
    | .error panic, returned =>
        exact absurd returned nofun
  · rintro rfl
    rfl

/-- From some amount of fuel on the computation returns the value. -/
def EndsWith {Value : Type}
    (computation : Nat → Fueled Value)
    (value : Value) :
    Prop :=
  ∃ enough, ∀ fuel, enough ≤ fuel → computation fuel = pure value

namespace EndsWith

variable {First Second : Type}

/-- A computation that needs no fuel ends. -/
theorem pure (value : First) : EndsWith (fun _ => Pure.pure value) value :=
  ⟨0, fun _ _ => rfl⟩

/-- A sequence ends when both parts do. -/
theorem bind
    {first : Nat → Fueled First}
    {next : Nat → First → Fueled Second}
    {middle : First}
    {result : Second}
    (firstEnds : EndsWith first middle)
    (nextEnds : EndsWith (fun fuel => next fuel middle) result) :
    EndsWith (fun fuel => first fuel >>= next fuel) result := by
  obtain ⟨enoughFirst, firstReturns⟩ := firstEnds
  obtain ⟨enoughNext, nextReturns⟩ := nextEnds
  refine ⟨max enoughFirst enoughNext, fun fuel enough => ?_⟩
  have firstReturned :=
    firstReturns fuel ((le_max_left _ _).trans enough)
  calc
    first fuel >>= next fuel = next fuel middle := by
      rw [firstReturned, pure_bind]
    _ = Pure.pure result :=
      nextReturns fuel ((le_max_right _ _).trans enough)

/-- A sequence goes on after a part that does not loop. -/
theorem lift_bind
    {first : Checked First}
    {next : Nat → First → Fueled Second}
    {middle : First}
    {result : Second}
    (computed : first = .ok middle)
    (nextEnds : EndsWith (fun fuel => next fuel middle) result) :
    EndsWith (fun fuel => liftM first >>= next fuel) result := by
  rw [computed]
  exact bind (pure middle) nextEnds

/-- A sequence goes on after two parts that do not loop. -/
theorem lift_bind_bind
    {Middle : Type}
    {first : Checked First}
    {second : First → Checked Middle}
    {next : Nat → Middle → Fueled Second}
    {middle : Middle}
    {result : Second}
    (computed : first >>= second = .ok middle)
    (nextEnds : EndsWith (fun fuel => next fuel middle) result) :
    EndsWith
      (fun fuel =>
        liftM first >>= fun value => liftM (second value) >>= next fuel)
      result := by
  obtain ⟨value, firstComputed, secondComputed⟩ :=
    Checked.bind_eq_ok.mp computed
  exact lift_bind firstComputed (lift_bind secondComputed nextEnds)

/-- A computation that spends one unit of fuel on its first round. -/
theorem of_succ
    {computation later : Nat → Fueled First}
    {value : First}
    (unfolds : ∀ fuel, computation (fuel + 1) = later fuel)
    (ends : EndsWith later value) :
    EndsWith computation value := by
  obtain ⟨enough, returns⟩ := ends
  refine ⟨enough + 1, fun fuel enoughForAll => ?_⟩
  obtain ⟨rest, rfl⟩ :=
    Nat.exists_eq_add_of_le' (Nat.le_of_add_left_le enoughForAll)
  exact (unfolds rest).trans
    (returns rest (Nat.le_of_succ_le_succ enoughForAll))

/-- A computation ends with one value only. -/
theorem unique
    {computation : Nat → Fueled First}
    {value other : First}
    (ends : EndsWith computation value)
    (endsOther : EndsWith computation other) :
    value = other := by
  obtain ⟨enough, returns⟩ := ends
  obtain ⟨enoughOther, returnsOther⟩ := endsOther
  have same :
      (Pure.pure value : Fueled First) = Pure.pure other :=
    (returns (max enough enoughOther) (le_max_left _ _)).symm.trans
      (returnsOther (max enough enoughOther) (le_max_right _ _))
  exact Option.some.inj (Except.ok.inj same)

end EndsWith

section Loops

variable
  {State : Type}
  {condition : State → Checked Bool}
  {body : Nat → State → Fueled State}

/-- A loop whose condition fails ends where it is. -/
theorem whileLoop_done
    {state : State}
    (fails : condition state = .ok false) :
    EndsWith (fun fuel => whileLoop condition body fuel state) state := by
  refine EndsWith.of_succ (fun fuel => ?_) (EndsWith.pure state)
  simp only [whileLoop, fails]
  rfl

/-- A loop goes on after a round that ends. -/
theorem whileLoop_round
    {state next final : State}
    (holds : condition state = .ok true)
    (round : EndsWith (fun fuel => body fuel state) next)
    (ends : EndsWith (fun fuel => whileLoop condition body fuel next) final) :
    EndsWith (fun fuel => whileLoop condition body fuel state) final := by
  refine EndsWith.of_succ (fun fuel => ?_) (round.bind ends)
  simp only [whileLoop, holds]
  rfl

/-- The states at the head of a loop, from its start on. -/
inductive Reaches
    (condition : State → Checked Bool)
    (body : Nat → State → Fueled State)
    (start : State) :
    State → Prop where
  | start : Reaches condition body start start
  | round
      {state next : State}
      (reached : Reaches condition body start state)
      (holds : condition state = .ok true)
      (ends : EndsWith (fun fuel => body fuel state) next) :
      Reaches condition body start next

/-- What the rounds of a loop keep holds at each of its heads. -/
theorem Reaches.preserves
    {start state : State}
    (reached : Reaches condition body start state)
    (keeps : State → Prop)
    (rounds :
      ∀ state next,
        keeps state → condition state = .ok true →
        EndsWith (fun fuel => body fuel state) next → keeps next)
    (startKeeps : keeps start) :
    keeps state := by
  induction reached with
  | start =>
      exact startKeeps
  | round _ holds ends inductionHypothesis =>
      exact rounds _ _ inductionHypothesis holds ends

/-- A loop with an invariant and a measure ends, and keeps the invariant. -/
theorem whileLoop_ends
    (condition : State → Checked Bool)
    (body : Nat → State → Fueled State)
    (keeps goesOn : State → Prop)
    [DecidablePred goesOn]
    (measure : State → Nat)
    (decides :
      ∀ state, keeps state → condition state = .ok (decide (goesOn state)))
    (rounds :
      ∀ state, keeps state → goesOn state →
        ∃ next,
          EndsWith (fun fuel => body fuel state) next ∧
            keeps next ∧ measure next < measure state)
    (state : State)
    (start : keeps state) :
    ∃ final,
      EndsWith (fun fuel => whileLoop condition body fuel state) final ∧
        keeps final ∧ ¬ goesOn final := by
  induction size : measure state using Nat.strong_induction_on
    generalizing state with
  | h bound inductionHypothesis =>
      have decided := decides state start
      by_cases holds : goesOn state
      · rw [decide_eq_true holds] at decided
        obtain ⟨next, round, nextKeeps, smaller⟩ := rounds state start holds
        obtain ⟨final, ends, finalKeeps, fails⟩ :=
          inductionHypothesis (measure next) (size ▸ smaller) next
            nextKeeps rfl
        exact ⟨final, whileLoop_round decided round ends, finalKeeps, fails⟩
      · rw [decide_eq_false holds] at decided
        exact ⟨state, whileLoop_done decided, start, holds⟩

variable
  {Value : Type}
  {round : State → Checked (Round State Value)}

/-- A loop that a round leaves ends with the value of that round. -/
theorem loop_break
    {state : State}
    {value : Value}
    (leaves : round state = .ok (.break value)) :
    EndsWith (fun fuel => loop round fuel state) value := by
  refine EndsWith.of_succ (fun fuel => ?_) (EndsWith.pure value)
  simp only [loop, leaves]
  rfl

/-- A loop goes on after a round that does. -/
theorem loop_goOn
    {state next : State}
    {value : Value}
    (goesOn : round state = .ok (.goOn next))
    (ends : EndsWith (fun fuel => loop round fuel next) value) :
    EndsWith (fun fuel => loop round fuel state) value := by
  refine EndsWith.of_succ (fun fuel => ?_) ends
  simp only [loop, goesOn]
  rfl

/-- A loop with an invariant and a measure ends with what a last round gives. -/
theorem loop_ends
    (round : State → Checked (Round State Value))
    (keeps : State → Prop)
    (gives : Value → Prop)
    (measure : State → Nat)
    (rounds :
      ∀ state, keeps state →
        (∃ next,
          round state = .ok (.goOn next) ∧
            keeps next ∧ measure next < measure state) ∨
        ∃ value, round state = .ok (.break value) ∧ gives value)
    (state : State)
    (start : keeps state) :
    ∃ value, EndsWith (fun fuel => loop round fuel state) value ∧ gives value := by
  induction size : measure state using Nat.strong_induction_on
    generalizing state with
  | h bound inductionHypothesis =>
      rcases rounds state start with
        ⟨next, goesOn, nextKeeps, smaller⟩ | ⟨value, leaves, given⟩
      · obtain ⟨value, ends, given⟩ :=
          inductionHypothesis (measure next) (size ▸ smaller) next
            nextKeeps rfl
        exact ⟨value, loop_goOn goesOn ends, given⟩
      · exact ⟨value, loop_break leaves, given⟩

/-- A number of rounds that go on, from a state to a later one. -/
inductive GoesOn (round : State → Checked (Round State Value)) :
    Nat → State → State → Prop where
  | none (state : State) : GoesOn round 0 state state
  | next
      {count : Nat}
      {state middle final : State}
      (first : round state = .ok (.goOn middle))
      (later : GoesOn round count middle final) :
      GoesOn round (count + 1) state final

/-- A measure that every round lowers bounds the number of rounds. -/
theorem GoesOn.le_measure
    {count : Nat}
    {state final : State}
    (goesOn : GoesOn round count state final)
    (measure : State → Nat)
    (lowers :
      ∀ state next,
        round state = .ok (.goOn next) → measure next < measure state) :
    count ≤ measure state := by
  induction goesOn with
  | none state =>
      exact Nat.zero_le _
  | next first _ inductionHypothesis =>
      exact Nat.succ_le_of_lt
        (inductionHypothesis.trans_lt (lowers _ _ first))

/-- A loop with more fuel than its measure does not run out of it. -/
theorem loop_within
    (measure : State → Nat)
    (lowers :
      ∀ state next,
        round state = .ok (.goOn next) → measure next < measure state)
    {fuel : Nat}
    {state : State}
    (enough : measure state < fuel) :
    (loop round fuel state).run ≠ .ok none := by
  induction fuel generalizing state with
  | zero =>
      exact absurd enough (Nat.not_lt_zero _)
  | succ fuel inductionHypothesis =>
      cases computed : round state with
      | error panic =>
          simp only [loop, computed]
          exact nofun
      | ok outcome =>
          cases outcome with
          | goOn next =>
              have later :=
                inductionHypothesis
                  ((lowers state next computed).trans_le
                    (Nat.le_of_lt_succ enough))
              simp only [loop, computed]
              exact later
          | «break» value =>
              simp only [loop, computed]
              exact nofun

/-- A loop that returns with some fuel ends. -/
theorem loop_ends_of_returned
    {fuel : Nat}
    {state : State}
    {value : Value}
    (returned : loop round fuel state = pure value) :
    EndsWith (fun fuel => loop round fuel state) value := by
  induction fuel generalizing state with
  | zero =>
      exact absurd (Except.ok.inj returned) nofun
  | succ fuel inductionHypothesis =>
      obtain ⟨outcome, computed, returned⟩ := bind_eq_pure.mp returned
      have computed := lift_eq_pure.mp computed
      cases outcome with
      | goOn next =>
          exact loop_goOn computed (inductionHypothesis returned)
      | «break» other =>
          obtain rfl := Option.some.inj (Except.ok.inj returned)
          exact loop_break computed

/-- A loop returns what a loop returns whose rounds it follows. -/
theorem loop_follows
    {other : State → Checked (Round State Value)}
    (follows :
      ∀ state outcome, round state = .ok outcome → other state = .ok outcome)
    {fuel : Nat}
    {state : State}
    {value : Value}
    (returned : loop round fuel state = pure value) :
    loop other fuel state = pure value := by
  induction fuel generalizing state with
  | zero =>
      exact returned
  | succ fuel inductionHypothesis =>
      obtain ⟨outcome, computed, returned⟩ := bind_eq_pure.mp returned
      refine bind_eq_pure.mpr
        ⟨outcome, lift_eq_pure.mpr (follows _ _ (lift_eq_pure.mp computed)),
          ?_⟩
      cases outcome with
      | goOn next =>
          exact inductionHypothesis returned
      | «break» result =>
          exact returned

end Loops

end WhileLoop
