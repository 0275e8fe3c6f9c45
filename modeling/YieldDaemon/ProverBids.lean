import YieldDaemon.Treasury

namespace YieldDaemon

open CheckedArithmetic

/-!
# Bids of the prover node

The node bids on a proof request with a multiple of its cost estimate.  The
multiplier is cut to an integer before the product, so a bid keeps the margin
only where the multiplier is an integer to begin with.  The poll for requests
and the clock are inputs of a cycle, and `f64` is taken as exact.
-/

/-- The prover setting that the node acts on. -/
structure ZkConfig where
  minBidMultiplier : ℚ

/-- The settings used where the configuration file names none. -/
def ZkConfig.default : ZkConfig where
  minBidMultiplier := 115 / 100

/-- A proof generation request, with the fields that the node reads. -/
structure ProofRequest where
  id : String
  numConstraints : Nat
  maxReward : Nat
  reward : Nat
  deriving DecidableEq

structure ProofResult where
  proofGenerated : Bool
  accepted : Bool
  rewardSat : Nat
  latencyMs : Nat
  deriving DecidableEq

/-- The result of a cycle without a proof. -/
def ProofResult.none : ProofResult :=
  ⟨false, false, 0, 0⟩

structure ZkProverNode where
  config : ZkConfig
  totalProofs : Nat
  totalRevenue : Nat
  consecutiveFailures : Nat

/-- The bids that a cycle submits, and how it ends. -/
structure ProverCycle where
  bids : List (ProofRequest × Nat)
  outcome : Checked (Except String ProofResult × ZkProverNode)

namespace ZkProverNode

def new (config : ZkConfig) : ZkProverNode :=
  ⟨config, 0, 0, 0⟩

/-- Estimate computational cost of generating a proof. -/
def estimateProofCost (profile : Profile) (request : ProofRequest) :
    Checked Nat := do
  let baseCost := 100
  let perConstraint := 1
  let nttFactor := if 1000000 < request.numConstraints then 3 else 1
  let constraints ← mul profile 64 perConstraint request.numConstraints
  let scaled ← mul profile 64 constraints nttFactor
  add profile 64 baseCost scaled

/-- `estimated_cost * min_bid_multiplier as u64`, where the cast comes first. -/
def bidFor
    (profile : Profile)
    (node : ZkProverNode)
    (request : ProofRequest) : Checked Nat := do
  let estimatedCost ← estimateProofCost profile request
  mul profile 64 estimatedCost (asU64 node.config.minBidMultiplier)

/-- Submit a bid to the prover auction. -/
def submitBid (_request : ProofRequest) (_bid : Nat) : Bool :=
  true

/-- Generate the ZK proof, which the transformed witness does not enter. -/
def generateProof (_request : ProofRequest) : List UInt8 :=
  List.replicate 256 0

/-- Submit generated proof to the network. -/
def submitProof (_request : ProofRequest) (_proof : List UInt8) : Bool :=
  true

/-- What follows a bid, with the tracking fields. -/
def prove
    (profile : Profile)
    (node : ZkProverNode)
    (request : ProofRequest)
    (bid latencyMs : Nat) :
    Checked (Except String ProofResult × ZkProverNode) :=
  if submitBid request bid then
    if submitProof request (generateProof request) then do
      let totalProofs ← add profile 64 node.totalProofs 1
      let totalRevenue ← add profile 64 node.totalRevenue request.reward
      return (.ok ⟨true, true, request.reward, latencyMs⟩,
        { node with
          totalProofs := totalProofs
          totalRevenue := totalRevenue
          consecutiveFailures := 0 })
    else do
      let failures ← add profile 32 node.consecutiveFailures 1
      return (.ok ⟨true, false, 0, latencyMs⟩,
        { node with consecutiveFailures := failures })
  else
    return (.ok .none, node)

/-- Main cycle: poll for requests, bid, prove, submit. -/
def pollAndProve
    (profile : Profile)
    (node : ZkProverNode)
    (polled : Except String (Option ProofRequest))
    (latencyMs : Nat) : ProverCycle :=
  match polled with
  | .error error => ⟨[], .ok (.error error, node)⟩
  | .ok none => ⟨[], .ok (.ok .none, node)⟩
  | .ok (some request) =>
    match node.bidFor profile request with
    | .error panic => ⟨[], .error panic⟩
    | .ok bid =>
      if request.maxReward < bid then
        ⟨[], .ok (.ok .none, node)⟩
      else
        ⟨[(request, bid)], node.prove profile request bid latencyMs⟩

/-- The cost estimate in exact numbers. -/
def exactCost (request : ProofRequest) : Nat :=
  100 + request.numConstraints *
    if 1000000 < request.numConstraints then 3 else 1

variable
  {profile : Profile}
  {node : ZkProverNode}
  {request : ProofRequest}
  {bid latencyMs : Nat}
  {multiplier : ℚ}

theorem exactCost_pos (request : ProofRequest) : 0 < exactCost request :=
  Nat.add_pos_left (by decide) _

/-- The cost estimate is the exact one, stored in u64. -/
theorem estimateProofCost_eq (narrow : request.numConstraints < 2 ^ 64) :
    estimateProofCost profile request =
      fit profile 64 (exactCost request) := by
  have constraints :
      mul profile 64 1 request.numConstraints =
        .ok request.numConstraints := by
    rw [mul, Nat.one_mul, fit_of_lt narrow]
  unfold estimateProofCost exactCost
  dsimp only
  rw [constraints, Checked.ok_bind]
  exact fit_bind (Nat.add_mod_mod _ _ _) (Nat.le_add_left _ _)

theorem asU64_pos (least : 1 ≤ multiplier) : 0 < asU64 multiplier := by
  have floor : 1 ≤ ⌊multiplier⌋ := Int.le_floor.mpr (by exact_mod_cast least)
  unfold asU64
  omega

theorem asU64_le (least : 1 ≤ multiplier) :
    (asU64 multiplier : ℚ) ≤ multiplier := by
  have nonneg : 0 ≤ ⌊multiplier⌋ := Int.floor_nonneg.mpr (by linarith)
  calc (asU64 multiplier : ℚ)
      ≤ (⌊multiplier⌋.toNat : ℚ) := by
        exact_mod_cast min_le_left _ _
    _ = (⌊multiplier⌋ : ℚ) := by
        exact_mod_cast Int.toNat_of_nonneg nonneg
    _ ≤ multiplier := Int.floor_le multiplier

/-- The bid of a request wraps, which a debug build does not allow. -/
theorem bidFor_eq_ok_iff
    (least : 1 ≤ node.config.minBidMultiplier)
    (narrow : request.numConstraints < 2 ^ 64) :
    node.bidFor profile request = .ok bid ↔
      exactCost request * asU64 node.config.minBidMultiplier % 2 ^ 64 = bid ∧
        (profile = .debug →
          exactCost request * asU64 node.config.minBidMultiplier < 2 ^ 64) := by
  have wraps :
      node.bidFor profile request =
        fit profile 64
          (exactCost request * asU64 node.config.minBidMultiplier) := by
    rw [bidFor, estimateProofCost_eq narrow]
    exact fit_bind (Nat.mod_mul_mod _ _ _)
      (Nat.le_mul_of_pos_right _ (asU64_pos least))
  rw [wraps, fit_eq_ok_iff]

/-- The bids of a cycle are that of its request, if that is within its reward. -/
theorem mem_bids_iff
    {polled : Except String (Option ProofRequest)}
    {submitted : ProofRequest × Nat} :
    submitted ∈ (node.pollAndProve profile polled latencyMs).bids ↔
      polled = .ok (some submitted.1) ∧
        node.bidFor profile submitted.1 = .ok submitted.2 ∧
        submitted.2 ≤ submitted.1.maxReward := by
  rcases submitted with ⟨request, bid⟩
  unfold pollAndProve
  rcases polled with error | none | polled
  · simp
  · simp
  · cases estimated : node.bidFor profile polled with
    | error panic =>
        refine iff_of_false (by simp [estimated]) ?_
        rintro ⟨same, returned, -⟩
        obtain rfl := Option.some.inj (Except.ok.inj same)
        exact absurd (estimated.symm.trans returned) nofun
    | ok exact =>
        dsimp only
        rw [estimated]
        dsimp only
        constructor
        · intro member
          split at member
          · exact absurd member List.not_mem_nil
          · next within =>
              obtain ⟨rfl, rfl⟩ := Prod.mk.inj (List.mem_singleton.mp member)
              exact ⟨rfl, estimated, Nat.not_lt.mp within⟩
        · rintro ⟨same, returned, within⟩
          obtain rfl := Option.some.inj (Except.ok.inj same)
          obtain rfl := Except.ok.inj (estimated.symm.trans returned)
          rw [if_neg (Nat.not_lt.mpr within)]
          exact List.mem_singleton_self _

/-- The bid covers the multiple of the exact cost, and the reward covers it. -/
structure KeepsMargin
    (multiplier : ℚ)
    (request : ProofRequest)
    (bid : Nat) : Prop where
  margin : multiplier * exactCost request ≤ bid
  reward : bid ≤ request.maxReward

/--
A wrapped bid covers the multiple of the cost only if the multiplier is an
integer and the multiple fits.
-/
theorem margin_le_iff (least : 1 ≤ multiplier) :
    multiplier * exactCost request ≤
        (exactCost request * asU64 multiplier % 2 ^ 64 : Nat) ↔
      multiplier = ⌊multiplier⌋ ∧
        multiplier * exactCost request < 2 ^ 64 := by
  have costPositive : (0 : ℚ) < exactCost request := by
    exact_mod_cast exactCost_pos request
  constructor
  · intro covers
    have cut := asU64_le least
    have wraps :
        ((exactCost request * asU64 multiplier % 2 ^ 64 : Nat) : ℚ) ≤
          asU64 multiplier * exactCost request := by
      rw [mul_comm]
      exact_mod_cast Nat.mod_le _ _
    have integral : multiplier = asU64 multiplier :=
      le_antisymm
        (le_of_mul_le_mul_right (covers.trans wraps) costPositive) cut
    refine ⟨?_, covers.trans_lt ?_⟩
    · rw [integral]
      simp
    · exact_mod_cast Nat.mod_lt _ (Nat.two_pow_pos 64)
  · rintro ⟨integral, fits⟩
    obtain ⟨factor, isFactor⟩ : ∃ factor : Nat, multiplier = factor := by
      refine ⟨⌊multiplier⌋.toNat, integral.trans ?_⟩
      exact_mod_cast (Int.toNat_of_nonneg
        (Int.floor_nonneg.mpr (zero_le_one.trans least))).symm
    subst isFactor
    have productFits : factor * exactCost request < 2 ^ 64 := by
      exact_mod_cast fits
    have narrow : factor < 2 ^ 64 :=
      (Nat.le_mul_of_pos_right _ (exactCost_pos request)).trans_lt productFits
    have cast : asU64 factor = factor := by
      rw [asU64, Int.floor_natCast, Int.toNat_natCast]
      exact min_eq_left (Nat.le_sub_one_of_lt narrow)
    rw [cast, mul_comm (exactCost request), Nat.mod_eq_of_lt productFits]
    exact_mod_cast le_refl _

/--
Every bid on a request keeps the margin exactly if the multiplier is an integer
whose multiple of the exact cost fits in 64 bits, or the wrapped bid is above
the reward, or a debug build panics on the product.
-/
theorem bids_keep_margin_iff
    {node : ZkProverNode}
    {request : ProofRequest}
    (least : 1 ≤ node.config.minBidMultiplier)
    (narrow : request.numConstraints < 2 ^ 64)
    (profile : Profile)
    (latencyMs : Nat) :
    (∀ submitted ∈
        (node.pollAndProve profile (.ok (some request)) latencyMs).bids,
      KeepsMargin node.config.minBidMultiplier submitted.1 submitted.2) ↔
      (node.config.minBidMultiplier = ⌊node.config.minBidMultiplier⌋ ∧
        node.config.minBidMultiplier * exactCost request < 2 ^ 64) ∨
      request.maxReward <
        exactCost request * asU64 node.config.minBidMultiplier % 2 ^ 64 ∨
      (profile = .debug ∧
        2 ^ 64 ≤ exactCost request * asU64 node.config.minBidMultiplier) := by
  rw [← margin_le_iff least]
  constructor
  · intro allKeep
    by_contra goesWrong
    push Not at goesWrong
    obtain ⟨short, within, fits⟩ := goesWrong
    have bidding := (bidFor_eq_ok_iff least narrow).mpr ⟨rfl, fits⟩
    have kept := allKeep (request, _) (mem_bids_iff.mpr ⟨rfl, bidding, within⟩)
    exact kept.margin.not_gt short
  · rintro condition ⟨other, bid⟩ submitted
    obtain ⟨same, bidding, within⟩ := mem_bids_iff.mp submitted
    obtain rfl := Option.some.inj (Except.ok.inj same)
    obtain ⟨wraps, fits⟩ := (bidFor_eq_ok_iff least narrow).mp bidding
    dsimp only at wraps
    subst wraps
    rcases condition with covers | above | ⟨debug, overflows⟩
    · exact ⟨covers, within⟩
    · exact absurd within (Nat.not_le.mpr above)
    · exact absurd (fits debug) (Nat.not_lt.mpr overflows)

/-- A request whose proof costs 1100, for a reward of at most 1200. -/
def thousandConstraints : ProofRequest where
  id := "request"
  numConstraints := 1000
  maxReward := 1200
  reward := 1200

/-- A node that bids the cost itself keeps a margin of nothing. -/
theorem cost_is_bid :
    ((new ⟨1⟩).pollAndProve .debug (.ok (some thousandConstraints)) 7).bids =
        [(thousandConstraints, 1100)] ∧
      KeepsMargin 1 thousandConstraints 1100 := by
  have multiplier : asU64 1 = 1 := by
    rw [asU64, Int.floor_one]
    rfl
  have bidding :
      (new ⟨1⟩).bidFor .debug thousandConstraints = .ok 1100 :=
    (congrArg (mul .debug 64 1100) multiplier).trans rfl
  have bids :
      ((new ⟨1⟩).pollAndProve .debug (.ok (some thousandConstraints)) 7).bids =
        [(thousandConstraints, 1100)] := by
    simp only [pollAndProve, bidding]
    rfl
  have kept :=
    (@bids_keep_margin_iff (new ⟨1⟩) thousandConstraints (le_refl _)
      (by decide) .debug 7).mpr
      (.inl ⟨by simp [new], by norm_num [new, exactCost, thousandConstraints]⟩)
  refine ⟨bids, kept (thousandConstraints, 1100) ?_⟩
  rw [bids]
  exact List.mem_singleton_self _

/-- With the default multiplier of 1.15 the bid is the cost without a margin. -/
theorem default_margin_is_cut_off :
    ((new .default).pollAndProve .debug (.ok (some thousandConstraints)) 7).bids =
        [(thousandConstraints, 1100)] ∧
      ¬ KeepsMargin ZkConfig.default.minBidMultiplier thousandConstraints
        1100 := by
  have multiplier : asU64 (115 / 100) = 1 := by
    have floor : ⌊(115 / 100 : ℚ)⌋ = 1 := by
      rw [Int.floor_eq_iff]
      norm_num
    rw [asU64, floor]
    rfl
  have bidding :
      (new .default).bidFor .debug thousandConstraints = .ok 1100 :=
    (congrArg (mul .debug 64 1100) multiplier).trans rfl
  constructor
  · simp only [pollAndProve, bidding]
    rfl
  · intro keeps
    have margin := keeps.margin
    norm_num [ZkConfig.default, exactCost, thousandConstraints] at margin

end ZkProverNode

end YieldDaemon
