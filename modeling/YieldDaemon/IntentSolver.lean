import Mathlib.Data.List.AList
import YieldDaemon.CheckedArithmetic
import YieldDaemon.StateShadow
import YieldDaemon.TwoSidedMatching

namespace YieldDaemon

open CheckedArithmetic TwoSidedMatching

/-!
# Intent solver

User intents are collected in an order book keyed by their token pair, and a
batch pairs every key off against the reverse key.  The keys of the book are
visited in an order that a hash map leaves open, so the order is an argument
of the batch.
-/

/-- A signed user intent, with the fields that the solver reads. -/
structure Intent where
  id : Key
  sellToken : Key
  buyToken : Key
  sellAmount : Nat

/-- A pair of tokens, the sold one first. -/
abbrev TokenPair := Key × Key

namespace Intent

/-- The order-book key of an intent. -/
def pair (intent : Intent) : TokenPair :=
  (intent.sellToken, intent.buyToken)

end Intent

/-- Two intents matched by an amount. -/
structure IntentMatch where
  intentA : Key
  intentB : Key
  matchedAmount : Nat
  deriving DecidableEq

/-- A part of an intent that goes through a pool. -/
structure DexRoute where
  intentId : Key
  poolId : Key
  amountIn : Nat
  expectedOut : Nat
  deriving DecidableEq

/-- A solved batch: matched intents and routes for the excess. -/
structure BatchSolution where
  intentMatches : List IntentMatch
  dexRoutes : List DexRoute
  totalSurplus : Nat
  solverFee : Nat
  deriving DecidableEq

/-- The sum of the amounts that an intent is matched by on either side. -/
def BatchSolution.filled (solution : BatchSolution) (id : Key) : Nat :=
  ((solution.intentMatches.filter
    (fun pairing => pairing.intentA = id ∨ pairing.intentB = id)).map
      IntentMatch.matchedAmount).sum

/-- The matches and the surplus collected so far in a batch. -/
structure Batch where
  intentMatches : List IntentMatch
  totalSurplus : Nat

/-- Batch auction solver for intents. -/
structure IntentSolver where
  pendingIntents : List Intent
  orderBook : AList (fun _ : TokenPair => List Nat)

namespace IntentSolver

def new : IntentSolver :=
  ⟨[], ∅⟩

/-- Add an intent to the pending batch. -/
def addIntent (solver : IntentSolver) (intent : Intent) : IntentSolver where
  pendingIntents := solver.pendingIntents ++ [intent]
  orderBook :=
    solver.orderBook.insert intent.pair
      ((solver.orderBook.lookup intent.pair).getD [] ++
        [solver.pendingIntents.length])

/-- A solver to which intents were added one after the other. -/
def ofIntents (intents : List Intent) : IntentSolver :=
  intents.foldl addIntent new

/-- The sell amounts of a list of pending intents. -/
def remaining
    (intents : List Intent)
    (positions : List Nat) : Checked (List (Offer Nat)) :=
  positions.mapM fun position => do
    let intent ← index intents position
    return ⟨position, intent.sellAmount⟩

/--
Greedy matching: pair off sellers and buyers by amount.  The lists hold the
remaining amounts from `s_idx` and `b_idx` on.
-/
def matchPair (profile : Profile) (intents : List Intent) :
    List (Offer Nat) → List (Offer Nat) → Batch → Checked Batch
  | seller :: sellers, buyer :: buyers, batch =>
    if seller.amount = 0 then
      matchPair profile intents sellers (buyer :: buyers) batch
    else if buyer.amount = 0 then
      matchPair profile intents (seller :: sellers) buyers batch
    else do
      let matched := min seller.amount buyer.amount
      let intentA ← index intents seller.label
      let intentB ← index intents buyer.label
      let totalSurplus ← add profile 128 batch.totalSurplus (matched / 100)
      matchPair profile intents
        (seller.fillBy matched :: sellers)
        (buyer.fillBy matched :: buyers)
        { intentMatches :=
            batch.intentMatches ++ [⟨intentA.id, intentB.id, matched⟩]
          totalSurplus := totalSurplus }
  | [], _, batch => .ok batch
  | _ :: _, [], batch => .ok batch
termination_by sellers buyers =>
  sellers.length + buyers.length + volume sellers + volume buyers
decreasing_by
  all_goals
    simp only [List.length_cons, volume_cons, Offer.fillBy]
    omega

/-- Match one key of the order book against its reverse. -/
def solveKey
    (solver : IntentSolver)
    (profile : Profile)
    (batch : Batch)
    (key : TokenPair) : Checked Batch :=
  match solver.orderBook.lookup key, solver.orderBook.lookup key.swap with
  | some sellers, some buyers => do
    let sellRemaining ← remaining solver.pendingIntents sellers
    let buyRemaining ← remaining solver.pendingIntents buyers
    matchPair profile solver.pendingIntents sellRemaining buyRemaining batch
  | _, _ => .ok batch

/-- Solve the current batch, visiting the keys of the order book in `pairs`. -/
def solveBatch
    (solver : IntentSolver)
    (profile : Profile)
    (pairs : List TokenPair) : Checked BatchSolution := do
  let batch ← pairs.foldlM (solver.solveKey profile) ⟨[], 0⟩
  return {
    intentMatches := batch.intentMatches
    dexRoutes := []
    totalSurplus := batch.totalSurplus
    solverFee := batch.totalSurplus / 10 }

/-- Clear the pending batch. -/
def clear (_solver : IntentSolver) : IntentSolver :=
  new

def pendingCount (solver : IntentSolver) : Nat :=
  solver.pendingIntents.length

end IntentSolver

end YieldDaemon
