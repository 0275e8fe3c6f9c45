import YieldDaemon.PriceGraph

namespace YieldDaemon

open CheckedArithmetic

/-!
# SIMD path solver

Every cycle of a batch is simulated hop by hop on the speculative reserves, a
ternary search looks for the input of the largest profit, and the profitable
results are sorted.  Amounts are u128.  The order that an unstable sort leaves
equal profits in is open, so the sort is a parameter.
-/

/-- Result of evaluating a single arbitrage opportunity. -/
structure ArbResult where
  cycleIdx : Nat
  optimalInput : Nat
  expectedOutput : Nat
  netProfit : Nat
  profitBps : Nat
  poolSequence : List Nat
  directions : List Bool

/-- A sort of results by profit, the largest first. -/
structure ProfitSort where
  sort : List ArbResult → List ArbResult
  perm : ∀ results, (sort results).Perm results
  sorted :
    ∀ results,
      (sort results).Pairwise
        (fun first second => second.netProfit ≤ first.netProfit)

/-- Batch solver that evaluates multiple cycles against the state shadow. -/
structure SimdSolver where
  minProfit : Nat
  maxInput : Nat
  searchIterations : Nat

namespace SimdSolver

def new (minProfit maxInput : Nat) : SimdSolver where
  minProfit := minProfit
  maxInput := maxInput
  searchIterations := 40

/-- The hops of a cycle from a position on. -/
def simulateFrom
    (profile : Profile)
    (shadow : StateShadow)
    (cycle : ArbCycle) : List Nat → Nat → Checked Nat
  | [], amount => .ok amount
  | i :: later, amount => do
    let poolIdx ← index cycle.poolIndices i
    let xToY ← index cycle.directions i
    let swapped ← shadow.simSwap profile poolIdx amount xToY
    if swapped = 0 then
      return 0
    else
      simulateFrom profile shadow cycle later swapped

/-- Simulate a full cycle: chain swap simulations through each pool. -/
def simulateCycle
    (profile : Profile)
    (shadow : StateShadow)
    (cycle : ArbCycle)
    (input : Nat) : Checked Nat :=
  simulateFrom profile shadow cycle
    (List.range cycle.poolIndices.length) input

/-- The interval and the best input of a ternary search. -/
structure TernarySearch where
  lo : Nat
  hi : Nat
  bestInput : Nat
  bestProfit : Nat

/-- Keep the better of two inputs. -/
def trackBest (search : TernarySearch) (input profit : Nat) :
    TernarySearch :=
  if search.bestProfit < profit then
    { search with bestInput := input, bestProfit := profit }
  else
    search

/-- The iterations of the ternary search. -/
def searchRounds
    (profile : Profile)
    (shadow : StateShadow)
    (cycle : ArbCycle) : Nat → TernarySearch → Checked TernarySearch
  | 0, search => .ok search
  | rounds + 1, search => do
    let width ← sub profile 128 search.hi search.lo
    if width < 3 then
      return search
    else
      let m1 ← add profile 128 search.lo (width / 3)
      let m2 ← sub profile 128 search.hi (width / 3)
      let out1 ← simulateCycle profile shadow cycle m1
      let out2 ← simulateCycle profile shadow cycle m2
      -- The saturating subtraction of the source is the one of `Nat`.
      let p1 := out1 - m1
      let p2 := out2 - m2
      let tracked := trackBest (trackBest search m1 p1) m2 p2
      let p1Less := if p1 < p2 then 1 else 0
      searchRounds profile shadow cycle rounds
        { tracked with
          lo := p1Less * m1 + (1 - p1Less) * search.lo
          hi := p1Less * search.hi + (1 - p1Less) * m2 }

/-- Search for the input amount that maximizes profit, and its output. -/
def binarySearchOptimal
    (profile : Profile)
    (solver : SimdSolver)
    (shadow : StateShadow)
    (cycle : ArbCycle) : Checked (Nat × Nat) := do
  let search ← searchRounds profile shadow cycle solver.searchIterations
    ⟨1, solver.maxInput, 0, 0⟩
  let bestOutput ← simulateCycle profile shadow cycle search.bestInput
  return (search.bestInput, bestOutput)

/-- Evaluate a single arbitrage cycle. -/
def evaluateSingle
    (profile : Profile)
    (solver : SimdSolver)
    (shadow : StateShadow)
    (cycle : ArbCycle)
    (idx : Nat) : Checked (Option ArbResult) := do
  if cycle.path = [] ∨ cycle.poolIndices = [] then
    return none
  let probeInput := max (solver.maxInput / 1000) 100
  let probeOutput ← simulateCycle profile shadow cycle probeInput
  if probeOutput ≤ probeInput then
    return none
  let (optimalInput, maxOutput) ←
    solver.binarySearchOptimal profile shadow cycle
  if maxOutput ≤ optimalInput then
    return none
  let netProfit ← sub profile 128 maxOutput optimalInput
  if netProfit < solver.minProfit then
    return none
  let profitBps ←
    if 0 < optimalInput then do
      let scaled ← mul profile 128 netProfit 10000
      let bps ← div scaled optimalInput
      pure (bps % 2 ^ 32)
    else
      pure 0
  return some {
    cycleIdx := idx
    optimalInput := optimalInput
    expectedOutput := maxOutput
    netProfit := netProfit
    profitBps := profitBps
    poolSequence := cycle.poolIndices
    directions := cycle.directions }

/-- One more cycle of a batch. -/
def evaluateNext
    (profile : Profile)
    (solver : SimdSolver)
    (shadow : StateShadow)
    (results : List ArbResult)
    (cycle : ArbCycle) : Checked (List ArbResult) := do
  match ← solver.evaluateSingle profile shadow cycle results.length with
  | some result => return results ++ [result]
  | none => return results

/--
Evaluate a batch of arbitrage cycles against the current state.  The chunks of
four cycles follow each other in the order of the list.
-/
def evaluateBatch
    (profile : Profile)
    (profitSort : ProfitSort)
    (solver : SimdSolver)
    (shadow : StateShadow)
    (cycles : List ArbCycle) : Checked (List ArbResult) := do
  let results ← cycles.foldlM (solver.evaluateNext profile shadow) []
  return profitSort.sort results

end SimdSolver

end YieldDaemon
