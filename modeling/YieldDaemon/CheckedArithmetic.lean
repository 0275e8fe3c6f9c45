import Mathlib.Tactic

namespace CheckedArithmetic

/-!
# Fixed-width integer arithmetic with panics

Unsigned machine integers are natural numbers below a power of two.  An
operation whose exact result does not fit panics in a debug build and wraps in
a release build; a division by zero and an array access out of range panic in
both.  A computation that succeeds in a debug build has met none of these, and
it then has the same result in a release build.
-/

/-- Why a computation stops without a result. -/
inductive Panic where
  | indexOutOfRange
  | divisionByZero
  | arithmeticOverflow
  | assertionFailed
  deriving Repr, DecidableEq

/-- Overflow checks are on in a debug build and off in a release build. -/
inductive Profile where
  | debug
  | release
  deriving Repr, DecidableEq

/-- A computation that returns a value or panics. -/
abbrev Checked (Value : Type) := Except Panic Value

namespace Checked

variable {First Second : Type}

/-- A sequence returns exactly when both parts return. -/
theorem bind_eq_ok
    {first : Checked First}
    {next : First → Checked Second}
    {result : Second} :
    first >>= next = .ok result ↔
      ∃ middle, first = .ok middle ∧ next middle = .ok result := by
  cases first with
  | error reason =>
      simp [bind, Except.bind]
  | ok middle =>
      simp [bind, Except.bind]

/-- A value computed before the rest of a sequence is substituted in it. -/
@[simp] theorem ok_bind
    (value : First)
    (next : First → Checked Second) :
    (Except.ok value : Checked First) >>= next = next value :=
  rfl

/-- The rest of a sequence goes on with the value of its first part. -/
theorem bind_of_eq_ok
    {first : Checked First}
    {value : First}
    (computed : first = .ok value)
    (next : First → Checked Second) :
    first >>= next = next value := by
  rw [computed, ok_bind]

/-- A panic ends the whole sequence. -/
@[simp] theorem error_bind
    (reason : Panic)
    (next : First → Checked Second) :
    (Except.error reason : Checked First) >>= next = .error reason :=
  rfl

/-- The first part of a sequence that is free of a panic is free of it. -/
theorem ne_error_of_bind
    {first : Checked First}
    {next : First → Checked Second}
    {reason : Panic}
    (free : first >>= next ≠ .error reason) :
    first ≠ .error reason := by
  rintro rfl
  exact free rfl

/-- A sequence is free of a panic when each of its parts is. -/
theorem bind_ne_error
    {first : Checked First}
    {next : First → Checked Second}
    {reason : Panic}
    (firstFree : first ≠ .error reason)
    (nextFree : ∀ middle, first = .ok middle → next middle ≠ .error reason) :
    first >>= next ≠ .error reason := by
  cases first with
  | error other =>
      intro panicked
      exact firstFree (congrArg Except.error (Except.error.inj panicked))
  | ok middle =>
      exact nextFree middle rfl

/-- A sequence returns when each of its parts does. -/
theorem bind_returns
    {first : Checked First}
    {next : First → Checked Second}
    (firstReturns : ∃ middle, first = .ok middle)
    (nextReturns :
      ∀ middle, first = .ok middle → ∃ result, next middle = .ok result) :
    ∃ result, first >>= next = .ok result := by
  obtain ⟨middle, computed⟩ := firstReturns
  rw [computed, ok_bind]
  exact nextReturns middle computed

/-- Returning a value is a successful computation. -/
@[simp] theorem pure_eq_ok (value : First) :
    (pure value : Checked First) = .ok value :=
  rfl

section Loops

variable
  {State Item : Type}
  {step : State → Item → Checked State}
  {keeps : State → Prop}
  {items : List Item}

/-- A loop keeps its states related to the values of a fold. -/
theorem foldlM_relates
    {Value : Type}
    (relates : State → Value → Prop)
    (next : Value → Item → Value)
    (stepRelates :
      ∀ item ∈ items, ∀ state value, relates state value →
        ∃ following,
          step state item = .ok following ∧
            relates following (next value item))
    {state : State}
    {value : Value}
    (start : relates state value) :
    ∃ final,
      items.foldlM step state = .ok final ∧
        relates final (items.foldl next value) := by
  induction items generalizing state value with
  | nil =>
      exact ⟨state, rfl, start⟩
  | cons item items inductionHypothesis =>
      obtain ⟨middle, computed, middleRelates⟩ :=
        stepRelates item List.mem_cons_self state value start
      obtain ⟨final, laterComputed, finalRelates⟩ :=
        inductionHypothesis
          (fun other member =>
            stepRelates other (List.mem_cons_of_mem item member))
          middleRelates
      refine ⟨final, ?_, finalRelates⟩
      rw [List.foldlM_cons, computed, ok_bind, laterComputed]

/-- A loop returns, and keeps what each of its steps keeps. -/
theorem foldlM_keeps
    (returns :
      ∀ item ∈ items, ∀ state, keeps state →
        ∃ next, step state item = .ok next ∧ keeps next)
    (state : State)
    (start : keeps state) :
    ∃ final, items.foldlM step state = .ok final ∧ keeps final :=
  -- The states are related to no value in particular.
  @foldlM_relates State Item step items Unit
    (fun state _ => keeps state) (fun _ _ => ())
    (fun item member state _ kept => returns item member state kept)
    state () start

/-- A loop that returns keeps what each of its steps keeps. -/
theorem foldlM_preserves
    (keeps : State → Prop)
    (preserves :
      ∀ item ∈ items, ∀ state next,
        keeps state → step state item = .ok next → keeps next)
    {state final : State}
    (start : keeps state)
    (returned : items.foldlM step state = .ok final) :
    keeps final := by
  induction items generalizing state with
  | nil =>
      obtain rfl := Except.ok.inj returned
      exact start
  | cons item items inductionHypothesis =>
      rw [List.foldlM_cons, bind_eq_ok] at returned
      obtain ⟨middle, computed, laterReturned⟩ := returned
      exact inductionHypothesis
        (fun other member =>
          preserves other (List.mem_cons_of_mem item member))
        (preserves item List.mem_cons_self state middle start computed)
        laterReturned

/-- A loop that returns has run a step for each item. -/
theorem foldlM_ran
    {state final : State}
    (returned : items.foldlM step state = .ok final)
    {item : Item}
    (member : item ∈ items) :
    ∃ before after, step before item = .ok after := by
  induction items generalizing state with
  | nil =>
      exact absurd member List.not_mem_nil
  | cons first rest inductionHypothesis =>
      rw [List.foldlM_cons, bind_eq_ok] at returned
      obtain ⟨middle, computed, laterReturned⟩ := returned
      rcases List.mem_cons.mp member with rfl | inRest
      · exact ⟨state, middle, computed⟩
      · exact inductionHypothesis laterReturned inRest

/-- A loop whose steps all return returns. -/
theorem foldlM_returns
    (returns : ∀ item ∈ items, ∀ state, ∃ next, step state item = .ok next)
    (state : State) :
    ∃ final, items.foldlM step state = .ok final := by
  have always :
      ∀ item ∈ items, ∀ state, True →
        ∃ next, step state item = .ok next ∧ True := by
    intro item member state _
    obtain ⟨next, computed⟩ := returns item member state
    exact ⟨next, computed, trivial⟩
  obtain ⟨final, computed, -⟩ := foldlM_keeps always state trivial
  exact ⟨final, computed⟩

/-- What one step of a loop reaches from anywhere holds after the loop. -/
theorem foldlM_reaches
    {item : Item}
    (member : item ∈ items)
    (returns : ∀ other ∈ items, ∀ state, ∃ next, step state other = .ok next)
    (stays :
      ∀ other ∈ items, ∀ state next,
        keeps state → step state other = .ok next → keeps next)
    (reaches : ∀ state next, step state item = .ok next → keeps next)
    (state : State) :
    ∃ final, items.foldlM step state = .ok final ∧ keeps final := by
  obtain ⟨before, after, rfl⟩ := List.append_of_mem member
  obtain ⟨first, firstComputed⟩ :=
    foldlM_returns
      (fun other otherMember =>
        returns other (List.mem_append_left _ otherMember))
      state
  obtain ⟨middle, middleComputed⟩ := returns item member first
  obtain ⟨final, laterComputed, finalKeeps⟩ :=
    foldlM_keeps
      (fun other otherMember state kept => by
        have otherInItems :=
          List.mem_append_right before
            (List.mem_cons_of_mem item otherMember)
        obtain ⟨next, computed⟩ := returns other otherInItems state
        exact ⟨next, computed, stays other otherInItems state next kept computed⟩)
      middle (reaches first middle middleComputed)
  refine ⟨final, ?_, finalKeeps⟩
  rw [List.foldlM_append, firstComputed, ok_bind, List.foldlM_cons,
    middleComputed, ok_bind, laterComputed]

/-- A loop simulates a fold of the values that its states stand for. -/
theorem foldlM_simulates
    {Value : Type}
    (state : Value → State)
    (next : Value → Item → Value)
    (simulates :
      ∀ item ∈ items, ∀ value,
        step (state value) item = .ok (state (next value item)))
    (value : Value) :
    items.foldlM step (state value) = .ok (state (items.foldl next value)) := by
  have stepRelates :
      ∀ item ∈ items, ∀ current value, current = state value →
        ∃ following,
          step current item = .ok following ∧
            following = state (next value item) := by
    rintro item member _ value rfl
    exact ⟨_, simulates item member value, rfl⟩
  obtain ⟨final, computed, rfl⟩ :=
    foldlM_relates (fun current value => current = state value) next
      stepRelates rfl
  exact computed

/-- A loop whose steps return on some items only is a fold over such items. -/
theorem foldlM_eq_ok_iff
    {allowed : Item → Prop}
    (next : State → Item → State)
    (stepIff :
      ∀ item ∈ items, ∀ state result,
        step state item = .ok result ↔
          allowed item ∧ next state item = result)
    {state final : State} :
    items.foldlM step state = .ok final ↔
      (∀ item ∈ items, allowed item) ∧ items.foldl next state = final := by
  induction items generalizing state with
  | nil =>
      rw [List.foldlM_nil, pure_eq_ok, Except.ok.injEq]
      exact (and_iff_right (List.forall_mem_nil _)).symm
  | cons item items inductionHypothesis =>
      rw [List.forall_mem_cons] at stepIff
      rw [List.foldlM_cons, bind_eq_ok, List.forall_mem_cons, List.foldl_cons]
      constructor
      · rintro ⟨middle, computed, later⟩
        obtain ⟨isAllowed, rfl⟩ := (stepIff.1 state middle).mp computed
        obtain ⟨others, isFinal⟩ := (inductionHypothesis stepIff.2).mp later
        exact ⟨⟨isAllowed, others⟩, isFinal⟩
      · rintro ⟨⟨isAllowed, others⟩, isFinal⟩
        exact ⟨_, (stepIff.1 state _).mpr ⟨isAllowed, rfl⟩,
          (inductionHypothesis stepIff.2).mpr ⟨others, isFinal⟩⟩

/-- A map of conversions that all return is the map of their results. -/
theorem mapM_map_eq_ok
    {Source Result : Type}
    {sources : List Source}
    {source : Source → Item}
    {convert : Item → Checked Result}
    {converted : Source → Result}
    (converts :
      ∀ value ∈ sources, convert (source value) = .ok (converted value)) :
    (sources.map source).mapM convert = .ok (sources.map converted) := by
  induction sources with
  | nil =>
      rfl
  | cons value sources inductionHypothesis =>
      rw [List.map_cons, List.mapM_cons, converts value List.mem_cons_self,
        ok_bind,
        inductionHypothesis
          (fun other member =>
            converts other (List.mem_cons_of_mem value member))]
      rfl

/-- A list is mapped when each of its items is, to results related to them. -/
theorem mapM_relates
    {Result : Type}
    {convert : Item → Checked Result}
    {relates : Item → Result → Prop}
    (converts :
      ∀ item ∈ items, ∃ result,
        convert item = .ok result ∧ relates item result) :
    ∃ results,
      items.mapM convert = .ok results ∧
        List.Forall₂ relates items results := by
  induction items with
  | nil =>
      exact ⟨[], rfl, .nil⟩
  | cons item items inductionHypothesis =>
      obtain ⟨result, converted, related⟩ := converts item List.mem_cons_self
      obtain ⟨results, laterConverted, pairs⟩ :=
        inductionHypothesis
          (fun other member =>
            converts other (List.mem_cons_of_mem item member))
      refine ⟨result :: results, ?_, .cons related pairs⟩
      rw [List.mapM_cons, converted, ok_bind, laterConverted]
      rfl

/-- A list is mapped when each of its items is. -/
theorem mapM_returns
    {Result : Type}
    {convert : Item → Checked Result}
    (returns : ∀ item ∈ items, ∃ result, convert item = .ok result) :
    ∃ results,
      items.mapM convert = .ok results ∧
        List.Forall₂ (fun item result => convert item = .ok result)
          items results :=
  mapM_relates
    (fun item member =>
      (returns item member).imp (fun _ converted => ⟨converted, converted⟩))

end Loops

end Checked

section Operations

variable (profile : Profile) (width : Nat)

/-- Store an exact result in `width` bits. -/
def fit (exact : Nat) : Checked Nat :=
  if exact < 2 ^ width then
    .ok exact
  else
    match profile with
    | .debug => .error .arithmeticOverflow
    | .release => .ok (exact % 2 ^ width)

/-- `left + right` -/
def add (left right : Nat) : Checked Nat :=
  fit profile width (left + right)

/-- `left * right` -/
def mul (left right : Nat) : Checked Nat :=
  fit profile width (left * right)

/-- `left - right`, where a negative result is an overflow. -/
def sub (left right : Nat) : Checked Nat :=
  if right ≤ left then
    .ok (left - right)
  else
    match profile with
    | .debug => .error .arithmeticOverflow
    | .release => .ok ((left + 2 ^ width - right) % 2 ^ width)

/-- `left << bits`, where a shift by the whole width is an overflow. -/
def shl (left bits : Nat) : Checked Nat :=
  if bits < width then
    .ok ((left <<< bits) % 2 ^ width)
  else
    match profile with
    | .debug => .error .arithmeticOverflow
    | .release => .ok ((left <<< (bits % width)) % 2 ^ width)

/-- `left >> bits`, where a shift by the whole width is an overflow. -/
def shr (left bits : Nat) : Checked Nat :=
  if bits < width then
    .ok (left >>> bits)
  else
    match profile with
    | .debug => .error .arithmeticOverflow
    | .release => .ok (left >>> (bits % width))

/-- `debug_assert!(condition)`, which a release build leaves out. -/
def debugAssert (condition : Bool) : Checked Unit :=
  match profile, condition with
  | .debug, false => .error .assertionFailed
  | _, _ => .ok ()

end Operations

/-- `left / right` -/
def div (left right : Nat) : Checked Nat :=
  if right = 0 then .error .divisionByZero else .ok (left / right)

/-- `left % right` -/
def rem (left right : Nat) : Checked Nat :=
  if right = 0 then .error .divisionByZero else .ok (left % right)

/-- `fetch_add` on an `AtomicU64`, which wraps in every build. -/
def fetchAdd (counter amount : Nat) : Nat :=
  (counter + amount) % 2 ^ 64

/-- `value as i128` -/
def asI128 (value : Nat) : Int :=
  (value : Int).bmod (2 ^ 128)

/-- `left - right` on i128, where a result out of range is an overflow. -/
def subI128 (profile : Profile) (left right : Int) : Checked Int :=
  let wrapped := (left - right).bmod (2 ^ 128)
  if wrapped = left - right then
    .ok wrapped
  else
    match profile with
    | .debug => .error .arithmeticOverflow
    | .release => .ok wrapped

/-- Store an exact result in an i128. -/
def fitI128 (profile : Profile) (exact : Int) : Checked Int :=
  let wrapped := exact.bmod (2 ^ 128)
  if wrapped = exact then
    .ok wrapped
  else
    match profile with
    | .debug => .error .arithmeticOverflow
    | .release => .ok wrapped

/-- `left + right` on i128 -/
def addI128 (profile : Profile) (left right : Int) : Checked Int :=
  fitI128 profile (left + right)

/-- `left * right` on i128 -/
def mulI128 (profile : Profile) (left right : Int) : Checked Int :=
  fitI128 profile (left * right)

/-- The panics that a quotient or remainder on i128 has in every build. -/
def dividesI128 (left right : Int) : Checked Unit :=
  if right = 0 then
    .error .divisionByZero
  else if left = -2 ^ 127 ∧ right = -1 then
    .error .arithmeticOverflow
  else
    .ok ()

/-- `left / right` on i128, rounded towards zero. -/
def divI128 (left right : Int) : Checked Int := do
  dividesI128 left right
  return left.tdiv right

/-- `left % right` on i128, with the sign of `left`. -/
def remI128 (left right : Int) : Checked Int := do
  dividesI128 left right
  return left.tmod right

/-- `value as u64` for an i128. -/
def i128AsU64 (value : Int) : Nat :=
  (value % 2 ^ 64).toNat

/-- `value as u128` for an i128. -/
def i128AsU128 (value : Int) : Nat :=
  (value % 2 ^ 128).toNat

/-- The bytes of an integer, the least significant one first. -/
def leBytes (count value : Nat) : List UInt8 :=
  (List.range count).map (fun i => UInt8.ofNat (value / 256 ^ i))

/-- `values[position]` -/
def index {Value : Type} (values : List Value) (position : Nat) :
    Checked Value :=
  match values[position]? with
  | some value => .ok value
  | none => .error .indexOutOfRange

/-- `values[position] = value` -/
def store {Value : Type}
    (values : List Value)
    (position : Nat)
    (value : Value) :
    Checked (List Value) :=
  if position < values.length then
    .ok (values.set position value)
  else
    .error .indexOutOfRange

section Lemmas

variable {profile : Profile} {width left right result : Nat}

@[simp] theorem fit_of_lt
    {exact : Nat}
    (fits : exact < 2 ^ width) :
    fit profile width exact = .ok exact := by
  simp [fit, fits]

/-- In a debug build a result that does not fit is an overflow. -/
theorem fit_debug_of_le
    {exact : Nat}
    (overflows : 2 ^ width ≤ exact) :
    fit .debug width exact = .error .arithmeticOverflow :=
  if_neg (Nat.not_lt.mpr overflows)

/-- A stored result is the exact one up to wrapping. -/
theorem fit_wraps
    {exact : Nat}
    (returned : fit profile width exact = .ok result) :
    result = exact % 2 ^ width := by
  unfold fit at returned
  split at returned
  · next fits =>
      obtain rfl := Except.ok.inj returned
      exact (Nat.mod_eq_of_lt fits).symm
  · cases profile with
    | debug =>
        exact absurd returned nofun
    | release =>
        exact (Except.ok.inj returned).symm

/-- A result is stored up to wrapping, which a debug build does not allow. -/
theorem fit_eq_ok_iff {exact : Nat} :
    fit profile width exact = .ok result ↔
      exact % 2 ^ width = result ∧
        (profile = .debug → exact < 2 ^ width) := by
  by_cases fits : exact < 2 ^ width
  · rw [fit_of_lt fits, Except.ok.injEq, Nat.mod_eq_of_lt fits]
    exact (and_iff_left (fun _ => fits)).symm
  · cases profile <;> simp [fit, fits]

/-- A release build stores every result, wrapped. -/
theorem fit_release (width exact : Nat) :
    fit .release width exact = .ok (exact % 2 ^ width) := by
  by_cases fits : exact < 2 ^ width
  · rw [fit_of_lt fits, Nat.mod_eq_of_lt fits]
  · exact if_neg fits

/-- A growing computation on a stored result overflows and wraps as a whole. -/
theorem fit_bind
    {exact : Nat}
    {next : Nat → Nat}
    (congruent :
      next (exact % 2 ^ width) % 2 ^ width = next exact % 2 ^ width)
    (grows : exact ≤ next exact) :
    (fit profile width exact >>= fun stored =>
        fit profile width (next stored)) =
      fit profile width (next exact) := by
  cases profile with
  | debug =>
      by_cases fits : exact < 2 ^ width
      · rw [fit_of_lt fits, Checked.ok_bind]
      · have overflows := Nat.not_lt.mp fits
        rw [fit_debug_of_le overflows,
          fit_debug_of_le (overflows.trans grows), Checked.error_bind]
  | release =>
      rw [fit_release, Checked.ok_bind, fit_release, fit_release, congruent]

theorem fit_lt
    {exact : Nat}
    (returned : fit profile width exact = .ok result) :
    result < 2 ^ width :=
  (fit_wraps returned).trans_lt (Nat.mod_lt _ (Nat.two_pow_pos width))

theorem shl_of_lt
    {bits : Nat}
    (inRange : bits < width) :
    shl profile width left bits = .ok ((left <<< bits) % 2 ^ width) :=
  if_pos inRange

/-- A shifted bit is a power of two. -/
theorem shl_one
    {bits : Nat}
    (inRange : bits < width) :
    shl profile width 1 bits = .ok (2 ^ bits) := by
  rw [shl_of_lt inRange, Nat.one_shiftLeft,
    Nat.mod_eq_of_lt (Nat.pow_lt_pow_right Nat.one_lt_two inRange)]

theorem add_of_lt (fits : left + right < 2 ^ width) :
    add profile width left right = .ok (left + right) :=
  fit_of_lt fits

theorem sub_of_le (smaller : right ≤ left) :
    sub profile width left right = .ok (left - right) := by
  simp [sub, smaller]

/-- In a debug build a stored result is the exact one. -/
@[simp] theorem fit_debug_eq_ok {exact : Nat} :
    fit .debug width exact = .ok result ↔
      exact < 2 ^ width ∧ exact = result := by
  by_cases fits : exact < 2 ^ width <;> simp [fit, fits]

@[simp] theorem add_debug_eq_ok :
    add .debug width left right = .ok result ↔
      left + right < 2 ^ width ∧ left + right = result :=
  fit_debug_eq_ok

@[simp] theorem mul_debug_eq_ok :
    mul .debug width left right = .ok result ↔
      left * right < 2 ^ width ∧ left * right = result :=
  fit_debug_eq_ok

/-- A difference of two values of a width has that width. -/
theorem sub_lt
    (leftFits : left < 2 ^ width)
    (returned : sub profile width left right = .ok result) :
    result < 2 ^ width := by
  unfold sub at returned
  split at returned
  · obtain rfl := Except.ok.inj returned
    exact (Nat.sub_le left right).trans_lt leftFits
  · cases profile with
    | debug =>
        exact absurd returned nofun
    | release =>
        obtain rfl := Except.ok.inj returned
        exact Nat.mod_lt _ (Nat.two_pow_pos width)

/-- A sum, wrapped or not, is its left side only if the right side is zero. -/
theorem add_eq_left_iff
    (leftFits : left < 2 ^ width)
    (rightFits : right < 2 ^ width)
    (returned : add profile width left right = .ok result) :
    result = left ↔ right = 0 := by
  by_cases fits : left + right < 2 ^ width
  · obtain rfl : left + right = result := by
      simpa [add, fits] using returned
    exact Nat.add_eq_left
  · cases profile with
    | debug =>
        simp [add, fit, fits] at returned
    | release =>
        have wraps : (left + right) % 2 ^ width = result := by
          simpa [add, fit, fits] using returned
        rw [Nat.mod_eq_sub_mod (Nat.not_lt.mp fits),
          Nat.mod_eq_of_lt (by omega)] at wraps
        omega

/-- A release build wraps a sum, so it always has one. -/
theorem add_release_returns (width left right : Nat) :
    ∃ result, add .release width left right = .ok result :=
  ⟨_, fit_release width (left + right)⟩

theorem mul_release_returns (width left right : Nat) :
    ∃ result, mul .release width left right = .ok result :=
  ⟨_, fit_release width (left * right)⟩

@[simp] theorem sub_debug_eq_ok :
    sub .debug width left right = .ok result ↔
      right ≤ left ∧ left - right = result := by
  by_cases smaller : right ≤ left <;> simp [sub, smaller]

/-- The only panic of a checked operation on integers is an overflow. -/
theorem fit_ne_error
    {exact : Nat}
    {reason : Panic}
    (other : reason ≠ .arithmeticOverflow) :
    fit profile width exact ≠ .error reason := by
  unfold fit
  split
  · nofun
  · cases profile with
    | debug =>
        exact fun panicked => other (Except.error.inj panicked).symm
    | release =>
        nofun

theorem sub_ne_error
    {reason : Panic}
    (other : reason ≠ .arithmeticOverflow) :
    sub profile width left right ≠ .error reason := by
  unfold sub
  split
  · nofun
  · cases profile with
    | debug =>
        exact fun panicked => other (Except.error.inj panicked).symm
    | release =>
        nofun

/-- A division by something else than zero does not panic. -/
theorem div_ne_error
    {reason : Panic}
    (nonzero : right ≠ 0) :
    div left right ≠ .error reason := by
  rw [div, if_neg nonzero]
  nofun

/-- A result on i128 is the exact one or wrapped. -/
theorem fitI128_wraps
    {exact stored : Int}
    (returned : fitI128 profile exact = .ok stored) :
    stored = exact.bmod (2 ^ 128) := by
  unfold fitI128 at returned
  dsimp only at returned
  split at returned
  · exact (Except.ok.inj returned).symm
  · cases profile with
    | debug => exact absurd returned nofun
    | release => exact (Except.ok.inj returned).symm

/-- A difference on i128 is the exact one or wrapped. -/
theorem subI128_wraps
    {first second difference : Int}
    (returned : subI128 profile first second = .ok difference) :
    difference = (first - second).bmod (2 ^ 128) :=
  fitI128_wraps returned

/-- A wrapped difference of wrapped values is the wrapped difference. -/
theorem bmod_sub_bmod (first second : Int) (modulus : Nat) :
    (first.bmod modulus - second.bmod modulus).bmod modulus =
      (first - second).bmod modulus := by
  rw [Int.sub_bmod_bmod, Int.bmod_sub_bmod]

/-- A positive difference of an amount and a small one is the exact one. -/
theorem subI128_pos
    {value amount : Nat}
    {difference : Int}
    (valueFits : value < 2 ^ 128)
    (small : amount < 2 ^ 127)
    (positive : 0 < difference)
    (returned :
      subI128 profile (asI128 value) (asI128 amount) = .ok difference) :
    (value : Int) = amount + difference := by
  have wraps :=
    (subI128_wraps returned).trans (bmod_sub_bmod value amount (2 ^ 128))
  rw [Int.bmod_def] at wraps
  norm_num at wraps valueFits small
  split at wraps
  · omega
  · omega

/-- A number of less than 127 bits is the i128 of the same value. -/
theorem bmod_of_abs_lt
    {exact : Int}
    (small : |exact| < 2 ^ 127) :
    exact.bmod (2 ^ 128) = exact := by
  have bounds := abs_lt.mp small
  refine Int.bmod_eq_of_le_mul_two ?_ ?_
  · norm_num at bounds ⊢
    omega
  · norm_num at bounds ⊢
    omega

theorem asI128_of_lt
    {value : Nat}
    (small : value < 2 ^ 127) :
    asI128 value = value :=
  bmod_of_abs_lt (by rw [Nat.abs_cast]; exact_mod_cast small)

theorem fitI128_of_abs_lt
    {exact : Int}
    (small : |exact| < 2 ^ 127) :
    fitI128 profile exact = .ok exact := by
  have exactly := bmod_of_abs_lt small
  unfold fitI128
  dsimp only
  rw [if_pos exactly, exactly]

theorem subI128_of_abs_lt
    {first second : Int}
    (small : |first - second| < 2 ^ 127) :
    subI128 profile first second = .ok (first - second) :=
  fitI128_of_abs_lt small

/-- A wrapped number is an i128. -/
theorem bmod_lt (exact : Int) : exact.bmod (2 ^ 128) < 2 ^ 127 := by
  have below := @Int.bmod_lt exact (2 ^ 128) (Nat.two_pow_pos 128)
  norm_num at below ⊢
  omega

/--
A small difference of two amounts is computed exactly, unless a debug build
meets an amount that is no i128.
-/
theorem subI128_asI128_eq_ok
    {value amount : Nat}
    {difference : Int}
    (amountSmall : amount < 2 ^ 127)
    (small : |(value : Int) - amount| < 2 ^ 127) :
    subI128 profile (asI128 value) (asI128 amount) = .ok difference ↔
      (profile = .debug → value < 2 ^ 127) ∧
        (value : Int) - amount = difference := by
  have wraps :
      (asI128 value - asI128 amount).bmod (2 ^ 128) = value - amount :=
    (bmod_sub_bmod value amount (2 ^ 128)).trans (bmod_of_abs_lt small)
  unfold subI128
  dsimp only
  rw [wraps]
  by_cases valueSmall : value < 2 ^ 127
  · rw [asI128_of_lt valueSmall, asI128_of_lt amountSmall, if_pos rfl,
      Except.ok.injEq]
    exact (and_iff_right (fun _ => valueSmall)).symm
  · have wrapped : asI128 value < 2 ^ 127 := bmod_lt value
    rw [asI128_of_lt amountSmall, if_neg (by omega)]
    cases profile with
    | debug =>
        exact iff_of_false nofun (fun found => valueSmall (found.1 rfl))
    | release =>
        simp

/-- Nonnegative numbers have the quotient of the naturals. -/
theorem divI128_natCast
    {divisor : Nat}
    (positive : 0 < divisor)
    (dividend : Nat) :
    divI128 dividend divisor = .ok ((dividend / divisor : Nat) : Int) := by
  have noMinimum : ¬ ((dividend : Int) = -2 ^ 127 ∧ (divisor : Int) = -1) := by
    omega
  rw [divI128, dividesI128, if_neg (by omega), if_neg noMinimum,
    Checked.ok_bind, Checked.pure_eq_ok, Int.tdiv_eq_ediv_of_nonneg
      (Int.natCast_nonneg dividend), Int.natCast_ediv]

/-- A remainder by a positive divisor is computed, whatever the sign. -/
theorem remI128_natCast
    {divisor : Nat}
    (positive : 0 < divisor)
    (dividend : Int) :
    remI128 dividend divisor = .ok (dividend.tmod divisor) := by
  have noMinimum : ¬ (dividend = -2 ^ 127 ∧ (divisor : Int) = -1) := by
    omega
  rw [remI128, dividesI128, if_neg (by omega), if_neg noMinimum]
  rfl

/-- A remainder is smaller than its divisor. -/
theorem natAbs_remI128_lt
    {left right remainder : Int}
    (nonzero : right ≠ 0)
    (returned : remI128 left right = .ok remainder) :
    remainder.natAbs < right.natAbs := by
  obtain ⟨_, -, isRemainder⟩ := Checked.bind_eq_ok.mp returned
  obtain rfl := Except.ok.inj isRemainder
  rw [Int.natAbs_tmod]
  exact Nat.mod_lt _ (Int.natAbs_pos.mpr nonzero)

theorem shr_of_lt
    {bits : Nat}
    (inRange : bits < width) :
    shr profile width left bits = .ok (left >>> bits) :=
  if_pos inRange

theorem debugAssert_ne_error
    {condition : Bool}
    {reason : Panic}
    (other : reason ≠ .assertionFailed) :
    debugAssert profile condition ≠ .error reason := by
  cases profile <;> cases condition <;>
    simp [debugAssert, other.symm]

@[simp] theorem div_eq_ok :
    div left right = .ok result ↔
      right ≠ 0 ∧ left / right = result := by
  by_cases isZero : right = 0 <;> simp [div, isZero]

@[simp] theorem rem_eq_ok :
    rem left right = .ok result ↔
      right ≠ 0 ∧ left % right = result := by
  by_cases isZero : right = 0 <;> simp [rem, isZero]

@[simp] theorem debugAssert_debug_eq_ok {condition : Bool} {done : Unit} :
    debugAssert .debug condition = .ok done ↔ condition = true := by
  cases condition <;> simp [debugAssert]

@[simp] theorem debugAssert_true :
    debugAssert profile true = .ok () := by
  cases profile <;> rfl

@[simp] theorem debugAssert_release (condition : Bool) :
    debugAssert .release condition = .ok () := by
  cases condition <;> rfl

variable {Value : Type} {values : List Value} {position : Nat}

@[simp] theorem index_eq_ok {value : Value} :
    index values position = .ok value ↔
      values[position]? = some value := by
  cases found : values[position]? <;> simp [index, found]

/-- The only panic of an access is the one for its position. -/
theorem index_ne_error
    {reason : Panic}
    (other : reason ≠ .indexOutOfRange) :
    index values position ≠ .error reason := by
  unfold index
  split
  · nofun
  · exact fun panicked => other (Except.error.inj panicked).symm

theorem index_of_lt (inRange : position < values.length) :
    index values position = .ok values[position] := by
  simp [inRange]

theorem store_of_lt
    (inRange : position < values.length)
    (value : Value) :
    store values position value = .ok (values.set position value) := by
  simp [store, inRange]

/-- Reading a list that is tabulated by a function. -/
theorem index_map_range
    (f : Nat → Value)
    {count : Nat}
    (inRange : position < count) :
    index ((List.range count).map f) position = .ok (f position) := by
  rw [index_of_lt (by rwa [List.length_map, List.length_range]),
    List.getElem_map, List.getElem_range]

/-- Writing to such a list updates the function. -/
theorem store_map_range
    (f : Nat → Value)
    {count : Nat}
    (inRange : position < count)
    (value : Value) :
    store ((List.range count).map f) position value =
      .ok ((List.range count).map (Function.update f position value)) := by
  rw [store_of_lt (by rwa [List.length_map, List.length_range])]
  apply congrArg Except.ok
  apply List.ext_getElem
  · simp
  · intro i inSet inMap
    rw [List.getElem_set, List.getElem_map, List.getElem_map,
      List.getElem_range, Function.update_apply]
    simp only [eq_comm]

end Lemmas

/-- Without an overflow in a debug build another build computes the same. -/
def Agrees {Value : Type} (debug other : Checked Value) : Prop :=
  debug ≠ .error .arithmeticOverflow → other = debug

namespace Agrees

variable {First Second : Type}

theorem refl (computed : Checked First) : Agrees computed computed :=
  fun _ => rfl

/-- Sequences agree if their parts do. -/
theorem bind
    {debug other : Checked First}
    {debugNext otherNext : First → Checked Second}
    (first : Agrees debug other)
    (next : ∀ middle, Agrees (debugNext middle) (otherNext middle)) :
    Agrees (debug >>= debugNext) (other >>= otherNext) := by
  intro free
  cases debug with
  | error reason =>
      have noOverflow :
          (.error reason : Checked First) ≠ .error .arithmeticOverflow :=
        fun overflow =>
          free (congrArg Except.error (Except.error.inj overflow))
      rw [first noOverflow]
      rfl
  | ok middle =>
      rw [first nofun]
      exact next middle free

theorem fit (profile : Profile) (width exact : Nat) :
    Agrees (fit .debug width exact) (fit profile width exact) := by
  intro free
  by_cases fits : exact < 2 ^ width
  · rw [fit_of_lt fits, fit_of_lt fits]
  · simp [CheckedArithmetic.fit, fits] at free

theorem sub (profile : Profile) (width left right : Nat) :
    Agrees (sub .debug width left right) (sub profile width left right) := by
  intro free
  by_cases smaller : right ≤ left
  · rw [sub_of_le smaller, sub_of_le smaller]
  · simp [CheckedArithmetic.sub, smaller] at free

theorem fitI128 (profile : Profile) (exact : Int) :
    Agrees (fitI128 .debug exact) (fitI128 profile exact) := by
  intro free
  unfold CheckedArithmetic.fitI128 at free ⊢
  by_cases inRange : exact.bmod (2 ^ 128) = exact
  · rw [if_pos inRange, if_pos inRange]
  · rw [if_neg inRange] at free
    exact absurd rfl free

/-- What a debug build returns every build does. -/
theorem returns
    {debug other : Checked First}
    {value : First}
    (agrees : Agrees debug other)
    (returned : debug = .ok value) :
    other = .ok value := by
  have free : debug ≠ .error .arithmeticOverflow := by
    rw [returned]
    nofun
  exact (agrees free).trans returned

end Agrees

end CheckedArithmetic
