import Mathlib.Tactic

namespace LabelledRun

/-!
# Runs of a labelled transition system

A run takes the labels of a finite list one after the other.  A property of
every state of a run is reduced here to a condition on its steps: when the
states satisfy an invariant and a step from a good state reaches a good state
exactly if it meets the condition, every state of the run is good exactly if
every step of it meets the condition.
-/

variable {State Label : Type}

/-- A finite sequence of transitions labelled by a list. -/
inductive Run (step : State → Label → State → Prop) :
    State → List Label → State → Prop where
  | nil (state : State) :
      Run step state [] state
  | cons
      {initial middle final : State}
      {label : Label}
      {rest : List Label}
      (first : step initial label middle)
      (later : Run step middle rest final) :
      Run step initial (label :: rest) final

/-- Every state that a prefix of the labels leads to satisfies `holds`. -/
def EveryState
    (step : State → Label → State → Prop)
    (holds : State → Prop)
    (initial : State)
    (labels : List Label) : Prop :=
  ∀ earlier later reached,
    labels = earlier ++ later →
    Run step initial earlier reached →
    holds reached

/-- Every label that is taken meets a condition on the state before it. -/
def EveryStep
    (step : State → Label → State → Prop)
    (meets : State → Label → Prop)
    (initial : State)
    (labels : List Label) : Prop :=
  ∀ earlier label later before,
    labels = earlier ++ label :: later →
    Run step initial earlier before →
    meets before label

/-- A label leads from a state to at most one state. -/
def Deterministic (step : State → Label → State → Prop) : Prop :=
  ∀ before label first second,
    step before label first → step before label second → first = second

namespace Run

variable {step : State → Label → State → Prop}

/-- Concatenate two runs whose boundary states agree. -/
theorem append
    {initial middle final : State}
    {leading trailing : List Label}
    (first : Run step initial leading middle)
    (later : Run step middle trailing final) :
    Run step initial (leading ++ trailing) final := by
  induction first with
  | nil =>
      exact later
  | cons head _ inductionHypothesis =>
      exact .cons head (inductionHypothesis later)

/-- Extend a run by one final transition. -/
theorem snoc
    {initial middle final : State}
    {labels : List Label}
    {label : Label}
    (run : Run step initial labels middle)
    (last : step middle label final) :
    Run step initial (labels ++ [label]) final :=
  run.append (.cons last (.nil final))

/-- A run over a concatenation passes through a state between its parts. -/
theorem split
    {initial final : State}
    {leading trailing : List Label}
    (run : Run step initial (leading ++ trailing) final) :
    ∃ middle,
      Run step initial leading middle ∧ Run step middle trailing final := by
  induction leading generalizing initial with
  | nil =>
      exact ⟨initial, .nil initial, run⟩
  | cons label rest inductionHypothesis =>
      cases run with
      | cons first later =>
          obtain ⟨middle, leadingRun, trailingRun⟩ :=
            inductionHypothesis later
          exact ⟨middle, .cons first leadingRun, trailingRun⟩

/-- Deterministic runs over the same labels end in the same state. -/
theorem unique
    (deterministic : Deterministic step)
    {initial first second : State}
    {labels : List Label}
    (firstRun : Run step initial labels first)
    (secondRun : Run step initial labels second) :
    first = second := by
  induction firstRun with
  | nil =>
      cases secondRun
      rfl
  | cons head _ inductionHypothesis =>
      cases secondRun with
      | cons secondHead secondTail =>
          obtain rfl := deterministic _ _ _ _ head secondHead
          exact inductionHypothesis secondTail

/-- A property that each step preserves holds at the end of a run. -/
theorem preserves
    (keeps : State → Prop)
    (stepKeeps :
      ∀ {before label after},
        keeps before → step before label after → keeps after)
    {initial final : State}
    {labels : List Label}
    (run : Run step initial labels final)
    (start : keeps initial) :
    keeps final := by
  induction run with
  | nil =>
      exact start
  | cons head _ inductionHypothesis =>
      exact inductionHypothesis (stepKeeps start head)

/-- A property that may depend on the number of steps taken so far. -/
theorem preserves_counted
    (keeps : Nat → State → Prop)
    (stepKeeps :
      ∀ {taken before label after},
        keeps taken before → step before label after →
        keeps (taken + 1) after)
    {initial final : State}
    {labels : List Label}
    (run : Run step initial labels final)
    {taken : Nat}
    (start : keeps taken initial) :
    keeps (taken + labels.length) final := by
  induction run generalizing taken with
  | nil =>
      exact start
  | cons head _ inductionHypothesis =>
      have later := inductionHypothesis (stepKeeps start head)
      rwa [Nat.add_right_comm] at later

/-- A property that may depend on the labels taken so far. -/
theorem preserves_logged
    (keeps : List Label → State → Prop)
    (stepKeeps :
      ∀ {taken before label after},
        keeps taken before → step before label after →
        keeps (taken ++ [label]) after)
    {initial final : State}
    {labels : List Label}
    (run : Run step initial labels final)
    {taken : List Label}
    (start : keeps taken initial) :
    keeps (taken ++ labels) final := by
  induction run generalizing taken with
  | nil =>
      rwa [List.append_nil]
  | cons head _ inductionHypothesis =>
      have later := inductionHypothesis (stepKeeps start head)
      rwa [List.append_assoc] at later

end Run

/-- The transitions whose label is allowed. -/
def restrict
    (allowed : Label → Prop)
    (step : State → Label → State → Prop) :
    State → Label → State → Prop :=
  fun before label after => allowed label ∧ step before label after

section Restriction

variable
  {step : State → Label → State → Prop}
  {allowed : Label → Prop}
  {initial final : State}
  {labels : List Label}

theorem Run.unrestrict
    (run : Run (restrict allowed step) initial labels final) :
    Run step initial labels final := by
  induction run with
  | nil state =>
      exact .nil state
  | cons head _ inductionHypothesis =>
      exact .cons head.2 inductionHypothesis

/-- A run over allowed labels is a run of the restricted system. -/
theorem Run.restrict
    (run : Run step initial labels final)
    (labelsAllowed : ∀ label ∈ labels, allowed label) :
    Run (restrict allowed step) initial labels final := by
  induction run with
  | nil state =>
      exact .nil state
  | cons head _ inductionHypothesis =>
      rw [List.forall_mem_cons] at labelsAllowed
      exact .cons ⟨labelsAllowed.1, head⟩
        (inductionHypothesis labelsAllowed.2)

theorem Deterministic.restrict
    (deterministic : Deterministic step) :
    Deterministic (restrict allowed step) :=
  fun before label first second firstStep secondStep =>
    deterministic before label first second firstStep.2 secondStep.2

/-- Over allowed labels the restricted system has the same states. -/
theorem everyState_restrict
    {holds : State → Prop}
    (labelsAllowed : ∀ label ∈ labels, allowed label) :
    EveryState (restrict allowed step) holds initial labels ↔
      EveryState step holds initial labels := by
  constructor
  · intro always earlier later reached shape run
    refine always earlier later reached shape (run.restrict ?_)
    intro label member
    exact labelsAllowed label (shape ▸ List.mem_append_left later member)
  · intro always earlier later reached shape run
    exact always earlier later reached shape run.unrestrict

/-- Over allowed labels the restricted system takes the same steps. -/
theorem everyStep_restrict
    {meets : State → Label → Prop}
    (labelsAllowed : ∀ label ∈ labels, allowed label) :
    EveryStep (restrict allowed step) meets initial labels ↔
      EveryStep step meets initial labels := by
  constructor
  · intro always earlier label later before shape run
    refine always earlier label later before shape (run.restrict ?_)
    intro other member
    exact labelsAllowed other
      (shape ▸ List.mem_append_left (label :: later) member)
  · intro always earlier label later before shape run
    exact always earlier label later before shape run.unrestrict

end Restriction

section TwoRuns

variable
  {step : State → Label → State → Prop}
  {visible : Label → Bool}
  {related : State → State → Prop}

/-- A run over hidden labels stays related to where the other run stands. -/
theorem Run.related_of_hidden
    (hidden :
      ∀ {first label after second},
        visible label = false → related first second →
        step first label after → related after second)
    {first firstFinal second : State}
    {labels : List Label}
    (run : Run step first labels firstFinal)
    (noneVisible : labels.filter visible = [])
    (start : related first second) :
    related firstFinal second := by
  induction run with
  | nil =>
      exact start
  | @cons _ _ _ label _ head _ inductionHypothesis =>
      rw [List.filter_eq_nil_iff] at noneVisible
      rw [List.forall_mem_cons] at noneVisible
      have labelHidden : visible label = false := by
        simpa using noneVisible.1
      exact inductionHypothesis
        (List.filter_eq_nil_iff.mpr noneVisible.2)
        (hidden labelHidden start head)

/--
Two runs with the same visible labels end in related states, when hidden steps
of either run keep the relation and equal visible steps of both keep it.
-/
theorem Run.related_of_same_visible
    (symmetric : ∀ {first second}, related first second → related second first)
    (hidden :
      ∀ {first label after second},
        visible label = false → related first second →
        step first label after → related after second)
    (shown :
      ∀ {first label firstAfter second secondAfter},
        visible label = true → related first second →
        step first label firstAfter → step second label secondAfter →
        related firstAfter secondAfter)
    {first firstFinal second secondFinal : State}
    {firstLabels secondLabels : List Label}
    (firstRun : Run step first firstLabels firstFinal)
    (secondRun : Run step second secondLabels secondFinal)
    (sameVisible : firstLabels.filter visible = secondLabels.filter visible)
    (start : related first second) :
    related firstFinal secondFinal := by
  induction firstRun generalizing second secondLabels secondFinal with
  | nil first =>
      have reached : related secondFinal first :=
        Run.related_of_hidden @hidden secondRun
          sameVisible.symm (symmetric start)
      exact symmetric reached
  | @cons first middle _ label rest head tail inductionHypothesis =>
      cases labelVisible : visible label with
      | false =>
          rw [List.filter_cons_of_neg (by simp [labelVisible])] at sameVisible
          exact inductionHypothesis secondRun sameVisible
            (hidden labelVisible start head)
      | true =>
          -- The second run reaches the same label after hidden ones.
          rw [List.filter_cons_of_pos labelVisible] at sameVisible
          induction secondRun with
          | nil =>
              simp at sameVisible
          | @cons second secondMiddle _ other later secondHead secondTail
              secondHypothesis =>
              cases otherVisible : visible other with
              | false =>
                  rw [List.filter_cons_of_neg (by simp [otherVisible])]
                    at sameVisible
                  exact secondHypothesis sameVisible
                    (symmetric
                      (hidden otherVisible (symmetric start) secondHead))
              | true =>
                  rw [List.filter_cons_of_pos otherVisible] at sameVisible
                  obtain ⟨rfl, sameLater⟩ := List.cons.inj sameVisible
                  exact inductionHypothesis secondTail sameLater
                    (shown labelVisible start head secondHead)

end TwoRuns

namespace EveryStep

variable
  {step : State → Label → State → Prop}
  {meets : State → Label → Prop}

/-- Without labels there is no step to meet the condition. -/
theorem nil {initial : State} :
    EveryStep step meets initial [] := by
  intro earlier label later before split
  simp at split

/-- The steps of a run are its first step and those of its tail. -/
theorem cons_iff
    (deterministic : Deterministic step)
    {initial middle : State}
    {label : Label}
    {rest : List Label}
    (first : step initial label middle) :
    EveryStep step meets initial (label :: rest) ↔
      meets initial label ∧ EveryStep step meets middle rest := by
  constructor
  · intro always
    refine ⟨always [] label rest initial rfl (.nil initial), ?_⟩
    intro earlier next later before split run
    exact always (label :: earlier) next later before
      (by rw [split]; rfl) (.cons first run)
  · rintro ⟨head, always⟩ earlier next later before split run
    cases run with
    | nil =>
        obtain ⟨rfl, -⟩ := List.cons.inj split
        exact head
    | cons firstStep tail =>
        obtain ⟨rfl, restSplit⟩ := List.cons.inj split
        rw [deterministic _ _ _ _ first firstStep] at always
        exact always _ next later before restSplit tail

/-- Conditions that agree on the states of a run are met by the same steps. -/
theorem congr
    {other : State → Label → Prop}
    {initial : State}
    {labels : List Label}
    (same :
      ∀ earlier label later before,
        labels = earlier ++ label :: later →
        Run step initial earlier before →
        (meets before label ↔ other before label)) :
    EveryStep step meets initial labels ↔
      EveryStep step other initial labels := by
  constructor
  · intro always earlier label later before split run
    exact (same earlier label later before split run).mp
      (always earlier label later before split run)
  · intro always earlier label later before split run
    exact (same earlier label later before split run).mpr
      (always earlier label later before split run)

end EveryStep

section Conditions

variable
  {step : State → Label → State → Prop}
  {holds : State → Prop}
  {meets : State → Label → Prop}
  {initial final : State}
  {labels : List Label}

/--
If a step that meets the condition leads from good states to good states, a
run whose steps all meet it has only good states.
-/
theorem everyState_of_everyStep
    (keeps : State → Prop)
    (stepKeeps :
      ∀ {before label after},
        keeps before → step before label after → keeps after)
    (stepHolds :
      ∀ {before label after},
        keeps before → holds before → meets before label →
        step before label after → holds after)
    (start : keeps initial)
    (startHolds : holds initial)
    (always : EveryStep step meets initial labels) :
    EveryState step holds initial labels := by
  intro earlier later reached shape run
  induction run generalizing labels with
  | nil =>
      exact startHolds
  | @cons initial middle reached label rest head tail inductionHypothesis =>
      have headMeets : meets initial label :=
        always [] label (rest ++ later) initial
          (by simpa using shape) (.nil initial)
      refine inductionHypothesis (stepKeeps start head)
        (stepHolds start startHolds headMeets head) ?_ rfl
      intro leading next trailing before split prefixRun
      refine always (label :: leading) next trailing before ?_
        (.cons head prefixRun)
      rw [shape, List.cons_append, List.cons_append, split]

/--
If a step between good states meets the condition, a run with only good states
meets it at every step.
-/
theorem everyStep_of_everyState
    (keeps : State → Prop)
    (deterministic : Deterministic step)
    (stepKeeps :
      ∀ {before label after},
        keeps before → step before label after → keeps after)
    (stepMeets :
      ∀ {before label after},
        label ∈ labels → keeps before → holds before →
        step before label after → holds after → meets before label)
    (run : Run step initial labels final)
    (start : keeps initial)
    (always : EveryState step holds initial labels) :
    EveryStep step meets initial labels := by
  intro earlier label later before shape prefixRun
  obtain ⟨middle, leadingRun, trailingRun⟩ := (shape ▸ run).split
  obtain rfl := leadingRun.unique deterministic prefixRun
  cases trailingRun with
  | @cons _ after _ _ _ head _ =>
      have middleKeeps : keeps middle :=
        prefixRun.preserves keeps stepKeeps start
      have middleHolds : holds middle :=
        always earlier (label :: later) middle shape prefixRun
      have afterHolds : holds after :=
        always (earlier ++ [label]) later after
          (by rw [shape, List.append_assoc]; rfl)
          (prefixRun.snoc head)
      exact stepMeets (by simp [shape]) middleKeeps middleHolds head
        afterHolds

/-- The two directions together, where a step decides them. -/
theorem everyState_iff_everyStep
    (keeps : State → Prop)
    (deterministic : Deterministic step)
    (stepKeeps :
      ∀ {before label after},
        keeps before → step before label after → keeps after)
    (stepHolds :
      ∀ {before label after},
        keeps before → holds before → step before label after →
        (holds after ↔ meets before label))
    (run : Run step initial labels final)
    (start : keeps initial)
    (startHolds : holds initial) :
    EveryState step holds initial labels ↔
      EveryStep step meets initial labels :=
  ⟨everyStep_of_everyState keeps deterministic stepKeeps
      (fun _ before good head afterGood =>
        (stepHolds before good head).mp afterGood)
      run start,
    everyState_of_everyStep keeps stepKeeps
      (fun before good condition head =>
        (stepHolds before good head).mpr condition)
      start startHolds⟩

end Conditions

end LabelledRun
