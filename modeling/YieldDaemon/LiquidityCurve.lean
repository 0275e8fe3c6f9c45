import Mathlib.Tactic

namespace LiquidityCurve

/-!
# Trades at constant liquidity

At a constant liquidity `L` and a square-root price `s` a pool holds `L / s` of
its first token and `L * s` of its second one.  A trade pays in one of the
tokens, moves the price until that reserve has grown by what was paid, and
receives what the other reserve shrinks by.  An amount is received exactly if
the payment reaches a bound that is a polynomial in the amount.
-/

variable {K : Type} [Field K]

/-- The price after some of the first token was paid. -/
def priceAfterFirst (liquidity price paid : K) : K :=
  liquidity * price / (liquidity + paid * price)

/-- The price after some of the second token was paid. -/
def priceAfterSecond (liquidity price paid : K) : K :=
  price + paid / liquidity

/-- What the reserve of the second token shrinks by. -/
def secondReceived (liquidity price paid : K) : K :=
  liquidity * (price - priceAfterFirst liquidity price paid)

/-- What the reserve of the first token shrinks by. -/
def firstReceived (liquidity price paid : K) : K :=
  liquidity * (1 / price - 1 / priceAfterSecond liquidity price paid)

section Prices

variable {liquidity price : K}

/-- The reserve of the first token has grown by what was paid. -/
theorem first_paid
    (hasLiquidity : liquidity ≠ 0)
    (hasPrice : price ≠ 0)
    (paid : K) :
    liquidity * (1 / priceAfterFirst liquidity price paid - 1 / price) =
      paid := by
  unfold priceAfterFirst
  field_simp
  ring

/-- The reserve of the second token has grown by what was paid. -/
theorem second_paid
    (hasLiquidity : liquidity ≠ 0)
    (paid : K) :
    liquidity * (priceAfterSecond liquidity price paid - price) = paid := by
  unfold priceAfterSecond
  field_simp
  ring

end Prices

section Bounds

variable
  [LinearOrder K]
  [IsStrictOrderedRing K]
  {liquidity price paid amount : K}

/-- An amount of the second token is received once it is paid for. -/
theorem le_secondReceived_iff
    (hasLiquidity : 0 < liquidity)
    (hasPrice : 0 < price)
    (isPaid : 0 ≤ paid) :
    amount ≤ secondReceived liquidity price paid ↔
      amount * liquidity ≤ paid * price * (liquidity * price - amount) := by
  have reserve : 0 < liquidity + paid * price := by
    positivity
  have received :
      secondReceived liquidity price paid =
        paid * price * (liquidity * price) / (liquidity + paid * price) := by
    unfold secondReceived priceAfterFirst
    field_simp
    ring
  rw [received, le_div_iff₀ reserve, mul_add, mul_sub]
  constructor
  · intro bounded
    linarith [mul_comm amount (paid * price)]
  · intro bounded
    linarith [mul_comm amount (paid * price)]

/-- An amount of the first token is received once it is paid for. -/
theorem le_firstReceived_iff
    (hasLiquidity : 0 < liquidity)
    (hasPrice : 0 < price)
    (isPaid : 0 ≤ paid) :
    amount ≤ firstReceived liquidity price paid ↔
      amount * liquidity * price ^ 2 ≤
        paid * (liquidity - amount * price) := by
  have reserve : 0 < price * (liquidity * price + paid) := by
    positivity
  have received :
      firstReceived liquidity price paid =
        paid * liquidity / (price * (liquidity * price + paid)) := by
    unfold firstReceived priceAfterSecond
    field_simp
    ring
  rw [received, le_div_iff₀ reserve, mul_sub]
  have expanded :
      amount * (price * (liquidity * price + paid)) =
        amount * liquidity * price ^ 2 + paid * (amount * price) := by
    ring
  rw [expanded, le_sub_iff_add_le]

end Bounds

end LiquidityCurve
