import YieldDaemon.AmmParser
import YieldDaemon.AsteEvents

namespace YieldDaemon

open CheckedArithmetic

/-!
# The amounts of a bundle

The solver chains the swaps of a cycle: what one hop pays out enters the next.
The bundle that is built from its result encodes the input of the first hop in
every transaction, so the two agree exactly where no hop but the last changes
the amount.
-/

namespace SimdSolver

variable
  {profile : Profile}
  {shadow : StateShadow}
  {cycle : ArbCycle}

/-- One iteration of `simulate_cycle`: the swap of a hop. -/
def hop
    (profile : Profile)
    (shadow : StateShadow)
    (cycle : ArbCycle)
    (i amount : Nat) : Checked Nat := do
  let poolIdx ← index cycle.poolIndices i
  let xToY ← index cycle.directions i
  shadow.simSwap profile poolIdx amount xToY

theorem simulateFrom_cons (i : Nat) (later : List Nat) (amount : Nat) :
    simulateFrom profile shadow cycle (i :: later) amount = (do
      let swapped ← hop profile shadow cycle i amount
      if swapped = 0 then
        return 0
      else
        simulateFrom profile shadow cycle later swapped) := by
  simp only [simulateFrom, hop, bind_assoc]

/-- The amounts that enter the hops of `simulateFrom`. -/
def enteringFrom
    (profile : Profile)
    (shadow : StateShadow)
    (cycle : ArbCycle) : List Nat → Nat → Checked (List Nat)
  | [], _ => .ok []
  | i :: later, amount => do
    let swapped ← hop profile shadow cycle i amount
    if swapped = 0 then
      return [amount]
    else do
      let amounts ← enteringFrom profile shadow cycle later swapped
      return amount :: amounts

/-- The amounts that enter the hops of `simulateCycle`. -/
def enteringAmounts
    (profile : Profile)
    (shadow : StateShadow)
    (cycle : ArbCycle)
    (input : Nat) : Checked (List Nat) :=
  enteringFrom profile shadow cycle
    (List.range cycle.poolIndices.length) input

/-- Hops that all pay something out, and the amounts that enter them. -/
inductive Path
    (profile : Profile)
    (shadow : StateShadow)
    (cycle : ArbCycle) : List Nat → Nat → List Nat → Prop where
  | nil (amount : Nat) :
      Path profile shadow cycle [] amount []
  | cons
      {i amount swapped : Nat}
      {hops amounts : List Nat}
      (swap : hop profile shadow cycle i amount = .ok swapped)
      (positive : swapped ≠ 0)
      (later : Path profile shadow cycle hops swapped amounts) :
      Path profile shadow cycle (i :: hops) amount (amount :: amounts)

/-- A simulation with an output has gone through all hops. -/
theorem path_of_simulateFrom
    {hops : List Nat}
    {amount output : Nat}
    (simulated : simulateFrom profile shadow cycle hops amount = .ok output)
    (positive : output ≠ 0) :
    ∃ amounts, Path profile shadow cycle hops amount amounts := by
  induction hops generalizing amount with
  | nil =>
      exact ⟨[], .nil amount⟩
  | cons i hops inductionHypothesis =>
      rw [simulateFrom_cons, Checked.bind_eq_ok] at simulated
      obtain ⟨swapped, swap, later⟩ := simulated
      split at later
      · exact absurd (Except.ok.inj later).symm positive
      · next nonzero =>
          obtain ⟨amounts, path⟩ := inductionHypothesis later
          exact ⟨amount :: amounts, .cons swap nonzero path⟩

namespace Path

variable
  {hops amounts : List Nat}
  {amount : Nat}

theorem length_eq (path : Path profile shadow cycle hops amount amounts) :
    amounts.length = hops.length := by
  induction path with
  | nil =>
      rfl
  | cons _ _ _ inductionHypothesis =>
      exact congrArg Nat.succ inductionHypothesis

theorem enteringFrom_eq
    (path : Path profile shadow cycle hops amount amounts) :
    enteringFrom profile shadow cycle hops amount = .ok amounts := by
  induction path with
  | nil =>
      rfl
  | cons swap positive _ inductionHypothesis =>
      rw [enteringFrom, swap, Checked.ok_bind, if_neg positive,
        inductionHypothesis]
      rfl

theorem mem_of_hops
    (path : Path profile shadow cycle hops amount amounts)
    (someHop : hops ≠ []) :
    amount ∈ amounts := by
  cases path with
  | nil =>
      exact absurd rfl someHop
  | cons =>
      exact List.mem_cons_self

/-- Every hop of the path has been swapped with some amount. -/
theorem hop_returns
    (path : Path profile shadow cycle hops amount amounts) :
    ∀ i ∈ hops, ∃ entering swapped,
      hop profile shadow cycle i entering = .ok swapped := by
  induction path with
  | nil =>
      nofun
  | @cons i amount swapped _ _ swap _ _ inductionHypothesis =>
      rw [List.forall_mem_cons]
      exact ⟨⟨amount, swapped, swap⟩, inductionHypothesis⟩

/--
All hops are entered by the same amount exactly if each but the last pays out
what enters it.
-/
theorem constant_iff
    (path : Path profile shadow cycle hops amount amounts) :
    (∀ entering ∈ amounts, entering = amount) ↔
      ∀ i ∈ hops.dropLast, hop profile shadow cycle i amount = .ok amount := by
  induction path with
  | nil =>
      simp
  | @cons i amount swapped hops amounts swap _ later inductionHypothesis =>
      cases later with
      | nil =>
          simp
      | @cons next _ swapped' hops' amounts' swap' positive' later' =>
          rw [List.dropLast_cons_cons]
          constructor
          · intro same
            rw [List.forall_mem_cons, List.forall_mem_cons] at same
            obtain ⟨-, rfl, laterSame⟩ := same
            rw [List.forall_mem_cons]
            refine ⟨swap, inductionHypothesis.mp ?_⟩
            exact List.forall_mem_cons.mpr ⟨rfl, laterSame⟩
          · intro kept
            rw [List.forall_mem_cons] at kept
            obtain ⟨firstKept, laterKept⟩ := kept
            obtain rfl : swapped = amount :=
              Except.ok.inj (swap.symm.trans firstKept)
            rw [List.forall_mem_cons]
            exact ⟨rfl, inductionHypothesis.mpr laterKept⟩

end Path

/-- What a result says about the cycle it was found for. -/
structure Evaluates
    (profile : Profile)
    (shadow : StateShadow)
    (cycle : ArbCycle)
    (result : ArbResult) : Prop where
  pools : result.poolSequence = cycle.poolIndices
  directions : result.directions = cycle.directions
  output :
    simulateCycle profile shadow cycle result.optimalInput =
      .ok result.expectedOutput
  gain : result.optimalInput < result.expectedOutput

variable {solver : SimdSolver}

theorem evaluates_of_evaluateSingle
    {idx : Nat}
    {result : ArbResult}
    (evaluated :
      solver.evaluateSingle profile shadow cycle idx = .ok (some result)) :
    Evaluates profile shadow cycle result := by
  simp only [evaluateSingle] at evaluated
  split at evaluated
  · exact absurd (Except.ok.inj evaluated) nofun
  simp only [Checked.bind_eq_ok] at evaluated
  obtain ⟨probeOutput, -, probed⟩ := evaluated
  split at probed
  · exact absurd (Except.ok.inj probed) nofun
  simp only [Checked.bind_eq_ok] at probed
  obtain ⟨⟨optimalInput, maxOutput⟩, searched, profitable⟩ := probed
  split at profitable
  · exact absurd (Except.ok.inj profitable) nofun
  next gain =>
  simp only [Checked.bind_eq_ok] at profitable
  obtain ⟨netProfit, -, accepted⟩ := profitable
  split at accepted
  · exact absurd (Except.ok.inj accepted) nofun
  have found :
      ∃ bps,
        (⟨idx, optimalInput, maxOutput, netProfit, bps, cycle.poolIndices,
          cycle.directions⟩ : ArbResult) = result := by
    split at accepted
    · simp only [Checked.bind_eq_ok] at accepted
      obtain ⟨scaled, -, quotient, -, bps, -, shape⟩ := accepted
      exact ⟨bps, Option.some.inj (Except.ok.inj shape)⟩
    · exact ⟨_, Option.some.inj (Except.ok.inj accepted)⟩
  obtain ⟨bps, rfl⟩ := found
  simp only [binarySearchOptimal, Checked.bind_eq_ok, Checked.pure_eq_ok,
    Except.ok.injEq, Prod.mk.injEq] at searched
  obtain ⟨search, -, output, simulated, rfl, rfl⟩ := searched
  exact ⟨rfl, rfl, simulated, Nat.not_le.mp gain⟩

/-- Every result of a batch belongs to one of its cycles. -/
theorem evaluates_of_evaluateBatch
    {profitSort : ProfitSort}
    {cycles : List ArbCycle}
    {results : List ArbResult}
    {result : ArbResult}
    (evaluated :
      solver.evaluateBatch profile profitSort shadow cycles = .ok results)
    (member : result ∈ results) :
    ∃ cycle ∈ cycles, Evaluates profile shadow cycle result := by
  simp only [evaluateBatch, Checked.bind_eq_ok, Checked.pure_eq_ok,
    Except.ok.injEq] at evaluated
  obtain ⟨unsorted, evaluatedAll, rfl⟩ := evaluated
  have unsortedMember := (profitSort.perm unsorted).mem_iff.mp member
  have allEvaluate :
      ∀ found ∈ unsorted, ∃ cycle ∈ cycles,
        Evaluates profile shadow cycle found := by
    refine Checked.foldlM_preserves
      (fun results => ∀ found ∈ results, ∃ cycle ∈ cycles,
        Evaluates profile shadow cycle found)
      ?_ (List.forall_mem_nil _) evaluatedAll
    intro cycle cycleMember results next kept step
    simp only [evaluateNext, Checked.bind_eq_ok] at step
    obtain ⟨single, singleEvaluated, collected⟩ := step
    cases single with
    | none =>
        obtain rfl := Except.ok.inj collected
        exact kept
    | some result =>
        obtain rfl := Except.ok.inj collected
        rw [List.forall_mem_append]
        refine ⟨kept, List.forall_mem_singleton.mpr ?_⟩
        exact ⟨cycle, cycleMember,
          evaluates_of_evaluateSingle singleEvaluated⟩
  exact allEvaluate result unsortedMember

end SimdSolver

/-- The amount that a swap transaction encodes. -/
def encodedAmount (txData : List UInt8) : Nat :=
  leValue ((txData.drop 8).take 16)

theorem encodedAmount_buildSwapIx
    (poolId tokenIn tokenOut : List UInt8)
    {amount : Nat}
    (fits : amount < 2 ^ 128) :
    encodedAmount
        (BundleConstructor.buildSwapIx poolId tokenIn tokenOut amount) =
      amount := by
  have written :
      ((BundleConstructor.buildSwapIx poolId tokenIn tokenOut
        amount).drop 8).take 16 = leBytes 16 amount := by
    simp only [BundleConstructor.buildSwapIx, List.append_assoc]
    rw [List.drop_left' (by rfl), List.take_left' (length_leBytes 16 amount)]
  rw [encodedAmount, written, leValue_leBytes]
  exact Nat.mod_eq_of_lt fits

namespace Aste

/--
The bundle realises a path: one swap transaction for every hop in order and
the tip, and every swap encodes the amount that enters its hop.
-/
structure Realises
    (engine : Aste)
    (result : ArbResult)
    (amounts : List Nat)
    (bundle : TransactionBundle) : Prop where
  count :
    bundle.transactions.length = result.poolSequence.length + 1
  swaps :
    ∀ i, i < result.poolSequence.length → ∃ leg amount,
      engine.routeLeg result i = .ok leg ∧
        bundle.transactions[i]? =
          some (BundleConstructor.buildSwapIx leg.poolId leg.tokenIn
            leg.tokenOut amount)
  amounts :
    ∀ i, i < result.poolSequence.length →
      (bundle.transactions[i]?).map encodedAmount = amounts[i]?

variable
  {engine : Aste}
  {profile : Profile}
  {cycle : ArbCycle}
  {result : ArbResult}

/-- A hop that can be swapped can be a leg of the route. -/
theorem routeLeg_returns
    {i entering swapped : Nat}
    (evaluates : SimdSolver.Evaluates profile engine.shadow cycle result)
    (swap :
      SimdSolver.hop profile engine.shadow cycle i entering = .ok swapped) :
    ∃ leg, engine.routeLeg result i = .ok leg := by
  simp only [SimdSolver.hop, StateShadow.simSwap, Checked.bind_eq_ok]
    at swap
  obtain ⟨poolIdx, poolFound, xToY, directionFound, pool, indexed, -⟩ := swap
  rw [routeLeg, evaluates.pools, evaluates.directions, poolFound,
    Checked.ok_bind, directionFound, Checked.ok_bind, indexed,
    Checked.ok_bind]
  cases xToY with
  | true => exact ⟨_, rfl⟩
  | false => exact ⟨_, rfl⟩

/-- The transactions of the bundle: a swap of the whole input for every leg. -/
theorem resultBundle_returns
    (legsReturn :
      ∀ i, i < result.poolSequence.length →
        ∃ leg, engine.routeLeg result i = .ok leg) :
    ∃ legs bundle,
      engine.resultBundle result = .ok bundle ∧
        List.Forall₂ (fun i leg => engine.routeLeg result i = .ok leg)
          (List.range result.poolSequence.length) legs ∧
        bundle.transactions =
          legs.map (fun leg =>
            BundleConstructor.buildSwapIx leg.poolId leg.tokenIn
              leg.tokenOut result.optimalInput) ++
            [BundleConstructor.buildTipIx
              (result.netProfit % 2 ^ 64 / 10)] := by
  obtain ⟨legs, mapped, pairs⟩ :=
    Checked.mapM_returns
      (fun i member => legsReturn i (List.mem_range.mp member))
  rw [resultBundle, mapped, Checked.ok_bind]
  exact ⟨legs, _, rfl, pairs, rfl⟩

/-- The transaction of a hop is a swap of the whole input. -/
theorem transaction_of_legs
    {legs : List RouteLeg}
    {tip : List UInt8}
    {hops i amount : Nat}
    (pairs :
      List.Forall₂ (fun i leg => engine.routeLeg result i = .ok leg)
        (List.range hops) legs)
    (inRange : i < hops) :
    ∃ leg,
      engine.routeLeg result i = .ok leg ∧
        (legs.map (fun leg =>
            BundleConstructor.buildSwapIx leg.poolId leg.tokenIn
              leg.tokenOut amount) ++ [tip])[i]? =
          some (BundleConstructor.buildSwapIx leg.poolId leg.tokenIn
            leg.tokenOut amount) := by
  have sameLength := pairs.length_eq
  rw [List.length_range] at sameLength
  have inLegs : i < legs.length := sameLength ▸ inRange
  have found := pairs.get (by rwa [List.length_range]) inLegs
  rw [List.get_eq_getElem, List.getElem_range] at found
  refine ⟨legs[i], found, ?_⟩
  rw [List.getElem?_append_left (by rwa [List.length_map]),
    List.getElem?_map, List.getElem?_eq_getElem inLegs]
  rfl

/-- The positions before the last one. -/
theorem mem_dropLast_range {i count : Nat} :
    i ∈ (List.range count).dropLast ↔ i + 1 < count := by
  cases count with
  | zero =>
      simp
  | succ count =>
      rw [List.range_succ, List.dropLast_concat, List.mem_range]
      omega

/--
The bundle for a path of `Evaluates` is built, and it realises the path exactly
when all hops are entered by the same amount.
-/
theorem bundle_of_path
    {amounts : List Nat}
    (evaluates : SimdSolver.Evaluates profile engine.shadow cycle result)
    (path :
      SimdSolver.Path profile engine.shadow cycle
        (List.range cycle.poolIndices.length) result.optimalInput amounts) :
    ∃ bundle,
      engine.resultBundle result = .ok bundle ∧
        ((∀ amount ∈ amounts, amount < 2 ^ 128) →
          (engine.Realises result amounts bundle ↔
            ∀ entering ∈ amounts, entering = result.optimalInput)) := by
  have legsReturn :
      ∀ i, i < result.poolSequence.length →
        ∃ leg, engine.routeLeg result i = .ok leg := by
    intro i inRange
    rw [evaluates.pools] at inRange
    obtain ⟨entering, swapped, swap⟩ :=
      path.hop_returns i (List.mem_range.mpr inRange)
    exact routeLeg_returns evaluates swap
  obtain ⟨legs, bundle, bundled, pairs, transactions⟩ :=
    resultBundle_returns legsReturn
  refine ⟨bundle, bundled, fun small => ?_⟩
  have sameLength : amounts.length = result.poolSequence.length := by
    rw [path.length_eq, List.length_range, evaluates.pools]
  have encoded :
      ∀ i, i < result.poolSequence.length →
        (bundle.transactions[i]?).map encodedAmount =
          some result.optimalInput := by
    intro i inRange
    have inputFits : result.optimalInput < 2 ^ 128 := by
      apply small _ (path.mem_of_hops _)
      rw [← evaluates.pools]
      exact List.ne_nil_of_mem (List.mem_range.mpr inRange)
    obtain ⟨leg, -, transaction⟩ := transaction_of_legs pairs inRange
    rw [transactions, transaction, Option.map_some,
      encodedAmount_buildSwapIx _ _ _ inputFits]
  constructor
  · intro realises entering enters
    obtain ⟨j, inAmounts, rfl⟩ := List.mem_iff_getElem.mp enters
    have sameAmount := realises.amounts j (sameLength ▸ inAmounts)
    rw [encoded j (sameLength ▸ inAmounts),
      List.getElem?_eq_getElem inAmounts] at sameAmount
    exact (Option.some.inj sameAmount).symm
  · intro constant
    constructor
    · rw [transactions, List.length_append, List.length_map,
        ← pairs.length_eq, List.length_range]
      rfl
    · intro i inRange
      obtain ⟨leg, found, transaction⟩ := transaction_of_legs pairs inRange
      exact ⟨leg, _, found, transactions ▸ transaction⟩
    · intro i inRange
      have inAmounts : i < amounts.length := sameLength ▸ inRange
      rw [encoded i inRange, List.getElem?_eq_getElem inAmounts]
      exact congrArg some
        (constant _ (List.getElem_mem inAmounts)).symm

/--
The bundle of a result realises the simulated path exactly when every hop but
the last pays out what enters it.
-/
theorem bundle_realises_path_iff
    {target : Target}
    {engine : Aste}
    {cycles : List ArbCycle}
    {results : List ArbResult}
    {result : ArbResult}
    (evaluated :
      engine.solver.evaluateBatch target.profile target.profitSort
        engine.shadow cycles = .ok results)
    (member : result ∈ results) :
    ∃ cycle ∈ cycles, ∃ amounts bundle,
      result.poolSequence = cycle.poolIndices ∧
        result.directions = cycle.directions ∧
        SimdSolver.enteringAmounts target.profile engine.shadow cycle
          result.optimalInput = .ok amounts ∧
        engine.resultBundle result = .ok bundle ∧
        ((∀ amount ∈ amounts, amount < 2 ^ 128) →
          (engine.Realises result amounts bundle ↔
            ∀ i, i + 1 < cycle.poolIndices.length →
              SimdSolver.hop target.profile engine.shadow cycle i
                result.optimalInput = .ok result.optimalInput)) := by
  obtain ⟨cycle, cycleMember, evaluates⟩ :=
    SimdSolver.evaluates_of_evaluateBatch evaluated member
  obtain ⟨amounts, path⟩ :=
    SimdSolver.path_of_simulateFrom evaluates.output
      (Nat.ne_of_gt (Nat.zero_lt_of_lt evaluates.gain))
  obtain ⟨bundle, bundled, realisesIff⟩ := bundle_of_path evaluates path
  refine ⟨cycle, cycleMember, amounts, bundle, evaluates.pools,
    evaluates.directions, path.enteringFrom_eq, bundled, fun small => ?_⟩
  rw [realisesIff small, path.constant_iff]
  exact forall_congr' (fun i => by rw [mem_dropLast_range])

/-- A pool without a fee, between the tokens 1 and 2. -/
def crossEntry (byte : UInt8) (reserveX reserveY : Nat) :
    StateShadow.Registration where
  poolKey := Vector.replicate 32 byte
  tokenX := 1
  tokenY := 2
  reserveX := reserveX
  reserveY := reserveY
  feeNum := 0
  feeDen := 1
  slot := 100

/-- Two pools that price the tokens differently. -/
def crossShadow : StateShadow :=
  let registered : Checked StateShadow := do
    let (_, one) ←
      StateShadow.new.registerPool .debug (crossEntry 1 1000 2000)
    let (_, two) ← one.registerPool .debug (crossEntry 2 2000 1000)
    return two
  match registered with
  | .ok shadow => shadow
  | .error _ => StateShadow.new

/-- An engine for small inputs over these pools. -/
def crossEngine : Aste :=
  { new { AsteConfig.default with minProfit := 1, maxInput := 100 } with
    shadow := crossShadow }

/-- Through the first pool and back through the second. -/
def crossCycle : ArbCycle :=
  ⟨[0, 1, 0], [0, 1], [true, false], -131072⟩

/-- What the solver finds for it: 99 become 181, and these 307. -/
def crossResult : ArbResult :=
  ⟨0, 99, 307, 208, 21010, [0, 1], [true, false]⟩

/-- A pool that swaps small amounts evenly, and one that gains. -/
def evenShadow : StateShadow :=
  let registered : Checked StateShadow := do
    let (_, one) ←
      StateShadow.new.registerPool .debug (crossEntry 1 1000000 1000000)
    let (_, two) ← one.registerPool .debug (crossEntry 2 2000 1000)
    return two
  match registered with
  | .ok shadow => shadow
  | .error _ => StateShadow.new

def evenEngine : Aste :=
  { crossEngine with shadow := evenShadow }

/-- What the solver finds for these pools: 99 stay 99, and become 181. -/
def evenResult : ArbResult :=
  ⟨0, 99, 181, 82, 8282, [0, 1], [true, false]⟩

/-- The bundle of two hops with the same amount realises its path. -/
theorem even_cycle_is_realised :
    ∃ bundle,
      SimdSolver.enteringAmounts .debug evenShadow crossCycle 99 =
          .ok [99, 99] ∧
        evenEngine.resultBundle evenResult = .ok bundle ∧
        evenEngine.Realises evenResult [99, 99] bundle := by
  have evaluated :
      evenEngine.solver.evaluateBatch .debug stableSort evenShadow
          [crossCycle] = .ok (stableSort.sort [evenResult]) := rfl
  have member : evenResult ∈ stableSort.sort [evenResult] :=
    (stableSort.perm [evenResult]).mem_iff.mpr List.mem_cons_self
  obtain ⟨cycle, isCross, amounts, bundle, -, -, entering, bundled,
    realisesIff⟩ :=
    bundle_realises_path_iff
      (show evenEngine.solver.evaluateBatch
        (⟨.debug, exactFloats, stableSort⟩ : Target).profile _ _ _ = _
        from evaluated)
      member
  obtain rfl := List.mem_singleton.mp isCross
  obtain rfl : [99, 99] = amounts := Except.ok.inj entering
  refine ⟨bundle, entering, bundled, (realisesIff (by decide)).mpr ?_⟩
  intro i inRange
  -- Only the first of the two hops has a later one.
  obtain rfl : i = 0 :=
    Nat.lt_one_iff.mp (Nat.lt_of_succ_lt_succ inRange)
  rfl

/-- The second transaction says 99 again, where 181 enter the hop. -/
theorem cross_cycle_is_not_realised :
    ∃ results bundle,
      crossEngine.solver.evaluateBatch .debug stableSort crossShadow
          [crossCycle] = .ok results ∧
        crossResult ∈ results ∧
        SimdSolver.enteringAmounts .debug crossShadow crossCycle 99 =
          .ok [99, 181] ∧
        crossEngine.resultBundle crossResult = .ok bundle ∧
        (bundle.transactions[1]?).map encodedAmount = some 99 ∧
        ¬ crossEngine.Realises crossResult [99, 181] bundle := by
  have member : crossResult ∈ stableSort.sort [crossResult] :=
    (stableSort.perm [crossResult]).mem_iff.mpr List.mem_cons_self
  refine ⟨_, _, rfl, member, rfl, rfl, rfl, fun realises => ?_⟩
  have second := realises.amounts 1 (by decide)
  exact absurd second (by decide)

end Aste

end YieldDaemon
