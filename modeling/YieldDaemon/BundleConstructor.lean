import YieldDaemon.StateShadow

namespace YieldDaemon

open CheckedArithmetic

/-!
# Bundle constructor

A bundle has one serialized swap for every leg of a route and a tip for the
validator.
-/

/-- The direction of a swap through a pool. -/
inductive SwapDirection where
  | xToY
  | yToX
  deriving Repr, DecidableEq

/-- One swap of an arbitrage route. -/
structure RouteLeg where
  poolId : List UInt8
  tokenIn : List UInt8
  tokenOut : List UInt8
  direction : SwapDirection

/-- An arbitrage route: sequence of swaps across pools. -/
structure ArbitrageRoute where
  legs : List RouteLeg
  expectedProfit : Nat

/-- Optimized input amount for an arbitrage route. -/
structure OptimalInput where
  inputAmount : Nat
  expectedProfit : Nat
  expectedOutput : Nat

/-- The serialized transactions of a bundle and its tip. -/
structure TransactionBundle where
  transactions : List (List UInt8)
  tipLamports : Nat
  blockhash : List UInt8

/-- The constructor of bundles, without an executor attached. -/
structure BundleConstructor where
  dryRun : Bool

namespace BundleConstructor

/-- Build a swap instruction (serialized transaction bytes). -/
def buildSwapIx
    (poolId tokenIn tokenOut : List UInt8)
    (amount : Nat) : List UInt8 :=
  [0x09, 0x00, 0x00, 0x00, 0x00, 0x00, 0x00, 0x00] ++
    leBytes 16 amount ++ leBytes 16 0 ++
    poolId ++ tokenIn ++ tokenOut

/-- Build a Jito tip transaction. -/
def buildTipIx (tipLamports : Nat) : List UInt8 :=
  [2, 0, 0, 0] ++ leBytes 8 tipLamports

/-- Construct a transaction bundle from an arbitrage route. -/
def construct
    (_bundler : BundleConstructor)
    (route : ArbitrageRoute)
    (optimal : OptimalInput) : TransactionBundle :=
  let tip := route.expectedProfit / 10
  { transactions :=
      route.legs.map (fun leg =>
        buildSwapIx leg.poolId leg.tokenIn leg.tokenOut
          optimal.inputAmount) ++ [buildTipIx tip]
    tipLamports := tip
    blockhash := List.replicate 32 0 }

end BundleConstructor

end YieldDaemon
