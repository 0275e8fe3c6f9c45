import Mathlib.NumberTheory.LucasPrimality
import Mathlib.Tactic

namespace YieldDaemon

/-!
# The BN254 scalar field

The order of the field is prime: 5 generates its units.  The primes below the
order are certified in the same way, from the factors of their predecessors.
-/

namespace Bn254

/-- A number is prime when some unit has the order of its predecessor. -/
theorem prime_of_factors
    {number : Nat}
    (generator : ZMod number)
    (factors : List (Nat × Nat))
    (predecessor :
      (factors.map (fun factor => factor.1 ^ factor.2)).prod = number - 1)
    (allPrime : ∀ factor ∈ factors, factor.1.Prime)
    (fermat : generator ^ (number - 1) = 1)
    (fullOrder :
      ∀ factor ∈ factors, generator ^ ((number - 1) / factor.1) ≠ 1) :
    number.Prime := by
  apply lucas_primality number generator fermat
  intro divisor divisorPrime divides
  rw [← predecessor] at divides
  obtain ⟨power, isPower, dividesPower⟩ :=
    divisorPrime.prime.dvd_prod_iff.mp divides
  obtain ⟨factor, member, rfl⟩ := List.mem_map.mp isPower
  have sameFactor : divisor = factor.1 :=
    (Nat.prime_dvd_prime_iff_eq divisorPrime (allPrime factor member)).mp
      (divisorPrime.dvd_of_dvd_pow dividesPower)
  rw [sameFactor]
  exact fullOrder factor member

theorem prime_405928799 : Nat.Prime 405928799 := by
  apply prime_of_factors 22
    [(2, 1), (11, 1), (3691, 1), (4999, 1)]
  · norm_num
  · simp only [List.forall_mem_cons]
    exact ⟨by norm_num, by norm_num, by norm_num, by norm_num, nofun⟩
  · reduce_mod_char
  · simp only [List.forall_mem_cons, Nat.reduceSub, Nat.reduceDiv]
    refine ⟨?_, ?_, ?_, ?_, nofun⟩ <;>
    · reduce_mod_char
      decide +kernel

theorem prime_639533339 : Nat.Prime 639533339 := by
  apply prime_of_factors 2
    [(2, 1), (229, 1), (853, 1), (1637, 1)]
  · norm_num
  · simp only [List.forall_mem_cons]
    exact ⟨by norm_num, by norm_num, by norm_num, by norm_num, nofun⟩
  · reduce_mod_char
  · simp only [List.forall_mem_cons, Nat.reduceSub, Nat.reduceDiv]
    refine ⟨?_, ?_, ?_, ?_, nofun⟩ <;>
    · reduce_mod_char
      decide +kernel

theorem prime_12048837557 : Nat.Prime 12048837557 := by
  apply prime_of_factors 2
    [(2, 2), (7, 2), (661, 1), (93001, 1)]
  · norm_num
  · simp only [List.forall_mem_cons]
    exact ⟨by norm_num, by norm_num, by norm_num, by norm_num, nofun⟩
  · reduce_mod_char
  · simp only [List.forall_mem_cons, Nat.reduceSub, Nat.reduceDiv]
    refine ⟨?_, ?_, ?_, ?_, nofun⟩ <;>
    · reduce_mod_char
      decide +kernel

theorem prime_5156902474397 : Nat.Prime 5156902474397 := by
  apply prime_of_factors 2
    [(2, 2), (107, 1), (12048837557, 1)]
  · norm_num
  · simp only [List.forall_mem_cons]
    exact ⟨by norm_num, by norm_num, prime_12048837557, nofun⟩
  · reduce_mod_char
  · simp only [List.forall_mem_cons, Nat.reduceSub, Nat.reduceDiv]
    refine ⟨?_, ?_, ?_, nofun⟩ <;>
    · reduce_mod_char
      decide +kernel

theorem prime_1670836401704629 : Nat.Prime 1670836401704629 := by
  apply prime_of_factors 2
    [(2, 2), (3, 4), (5156902474397, 1)]
  · norm_num
  · simp only [List.forall_mem_cons]
    exact ⟨by norm_num, by norm_num, prime_5156902474397, nofun⟩
  · reduce_mod_char
  · simp only [List.forall_mem_cons, Nat.reduceSub, Nat.reduceDiv]
    refine ⟨?_, ?_, ?_, nofun⟩ <;>
    · reduce_mod_char
      decide +kernel

theorem prime_65865678001877903 : Nat.Prime 65865678001877903 := by
  apply prime_of_factors 5
    [(2, 1), (83, 1), (379, 1), (1637, 1), (639533339, 1)]
  · norm_num
  · simp only [List.forall_mem_cons]
    exact ⟨by norm_num, by norm_num, by norm_num, by norm_num, prime_639533339,
      nofun⟩
  · reduce_mod_char
  · simp only [List.forall_mem_cons, Nat.reduceSub, Nat.reduceDiv]
    refine ⟨?_, ?_, ?_, ?_, ?_, nofun⟩ <;>
    · reduce_mod_char
      decide +kernel

theorem prime_13818364434197438864469338081 :
    Nat.Prime 13818364434197438864469338081 := by
  apply prime_of_factors 3
    [(2, 5), (5, 1), (823, 1), (1593227, 1), (65865678001877903, 1)]
  · norm_num
  · simp only [List.forall_mem_cons]
    exact ⟨by norm_num, by norm_num, by norm_num, by norm_num,
      prime_65865678001877903, nofun⟩
  · reduce_mod_char
  · simp only [List.forall_mem_cons, Nat.reduceSub, Nat.reduceDiv]
    refine ⟨?_, ?_, ?_, ?_, ?_, nofun⟩ <;>
    · reduce_mod_char
      decide +kernel

/-- The number of elements of the field. -/
abbrev order : Nat :=
  21888242871839275222246405745257275088548364400416034343698204186575808495617

theorem order_prime : order.Prime := by
  apply prime_of_factors 5
    [(2, 28), (3, 2), (13, 1), (29, 1), (983, 1), (11003, 1), (237073, 1),
      (405928799, 1), (1670836401704629, 1),
      (13818364434197438864469338081, 1)]
  · norm_num
  · simp only [List.forall_mem_cons]
    exact ⟨by norm_num, by norm_num, by norm_num, by norm_num, by norm_num,
      by norm_num, by norm_num, prime_405928799, prime_1670836401704629,
      prime_13818364434197438864469338081, nofun⟩
  · reduce_mod_char
  · simp only [List.forall_mem_cons]
    refine ⟨?_, ?_, ?_, ?_, ?_, ?_, ?_, ?_, ?_, ?_, nofun⟩ <;>
    · reduce_mod_char
      decide +kernel

instance : Fact order.Prime :=
  ⟨order_prime⟩

end Bn254

end YieldDaemon
