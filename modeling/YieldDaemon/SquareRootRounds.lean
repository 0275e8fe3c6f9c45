import YieldDaemon.ModularSquareRoot

namespace YieldDaemon

open CheckedArithmetic
open WhileLoop

/-!
# Rounds of the modular square root

None of the loops of the square root has a counter that bounds it.  The search
for a non-residue meets one below the prime, and the main loop lowers the order
of the factor by which its candidate is off, which the inner loop finds.
-/

/-- What holds at a head of the main loop, and in the round that follows. -/
structure RoundHolds
    (profile : Profile)
    (reducer : BarrettReducer)
    (a p : Nat)
    (search : RootSearch) : Prop where
  square : search.r ^ 2 ≡ a * search.t [MOD p]
  round :
    search.t ≠ 1 →
      ∃ found next,
        EndsWith (fun fuel => findOrder profile reducer fuel search.t)
            found ∧
          found.i < search.m ∧
          search.m - found.i - 1 < 64 ∧
          EndsWith (fun fuel => correctRoot profile reducer p fuel search)
            next ∧
          next.m < search.m

section Rounds

variable
  {profile : Profile}
  {reducer : BarrettReducer}
  {p : Nat}
  [prime : Fact p.Prime]

/-- Progress of the field elements makes a round succeed. -/
theorem RootSearch.Keeps.roundHolds
    {a : Nat}
    {search : RootSearch}
    (keeps : search.Keeps (a : ZMod p))
    (small : p < 2 ^ 63)
    (modulus : reducer.modulus = p) :
    RoundHolds profile reducer a p search := by
  constructor
  · obtain @⟨m, c, t, r, -, progress⟩ := keeps
    rw [← ZMod.natCast_eq_natCast_iff]
    push_cast
    rw [ZMod.natCast_zmod_val, ZMod.natCast_zmod_val]
    exact progress.square
  · intro notDone
    have short : search.m ≤ 63 := by
      obtain ⟨short, -⟩ := keeps
      exact short
    obtain ⟨found, next, foundEnds, below, ends, isFound, -⟩ :=
      correctRoot_finds profile small modulus keeps notDone
    exact ⟨found, next, foundEnds, below, by omega, ends, isFound ▸ below⟩

/-- Every head of the main loop stands for progress. -/
theorem keeps_of_reaches
    {a : ZMod p}
    {start search : RootSearch}
    (small : p < 2 ^ 63)
    (modulus : reducer.modulus = p)
    (startKeeps : start.Keeps a)
    (reached :
      Reaches offByFactor (correctRoot profile reducer p) start search) :
    search.Keeps a := by
  refine reached.preserves (RootSearch.Keeps a) ?_ startKeeps
  intro before after keeps goesOn ends
  have notDone : before.t ≠ 1 := of_decide_eq_true (Except.ok.inj goesOn)
  obtain ⟨-, next, -, -, nextEnds, -, nextKeeps⟩ :=
    correctRoot_finds profile small modulus keeps notDone
  rwa [ends.unique nextEnds]

end Rounds

/--
Every loop of the square root of a nonzero square ends.  The main loop is the
one of `modSqrt_eq_loop`, and all of its rounds hold.
-/
theorem modSqrt_loops_end
    (profile : Profile)
    {a p : Nat}
    (isPrime : p.Prime)
    (odd : p ≠ 2)
    (small : p < 2 ^ 63)
    (notZero : ¬ p ∣ a)
    (square : ∃ x, x ^ 2 ≡ a [MOD p]) :
    (∃ root, EndsWith (modSqrt profile a p) (some root)) ∧
      (∃ factors, EndsWith (fun fuel => factorTwos profile fuel p) factors) ∧
      (∃ z,
        EndsWith (fun fuel => findNonResidue profile fuel p) z ∧ z < p) ∧
      ∃ reducer start final,
        EndsWith (fun fuel => startRootSearch profile a p fuel)
            (reducer, start) ∧
          EndsWith
            (fun fuel =>
              whileLoop offByFactor (correctRoot profile reducer p) fuel
                start)
            final ∧
          ∀ search,
            Reaches offByFactor (correctRoot profile reducer p) start
                search →
              RoundHolds profile reducer a p search := by
  have prime : Fact p.Prime := ⟨isPrime⟩
  have isNotZero : (a : ZMod p) ≠ 0 := fun isZero =>
    notZero ((ZMod.natCast_eq_zero_iff a p).mp isZero)
  have isSquare : legendreSym p a = 1 := by
    obtain ⟨x, isRoot⟩ := square
    refine (legendreSym.eq_one_iff' p isNotZero).mpr ⟨x, ?_⟩
    rw [← pow_two]
    exact (sq_modEq_iff.mp isRoot).symm
  obtain ⟨x, ends, -⟩ := modSqrt_some profile odd small isSquare
  obtain ⟨factors, factorsEnd, -⟩ :=
    factorTwos_ends profile (isPrime.two_le.lt_of_ne' odd) small
  obtain ⟨z, zEnds, below, -⟩ := findNonResidue_ends profile odd small
  obtain ⟨reducer, start, startEnds, modulus, keeps⟩ :=
    startRootSearch_ends profile odd small isSquare
  obtain ⟨final, -, finalEnds, -⟩ :=
    correctRoot_loop_ends profile small modulus keeps
  refine ⟨⟨x.val, ends⟩, ⟨factors, factorsEnd⟩, ⟨z, zEnds, below⟩, reducer,
    start, final, startEnds, finalEnds, fun search reached => ?_⟩
  exact (keeps_of_reaches small modulus keeps reached).roundHolds small modulus

/-- The loops for the roots of 2 modulo 17 end, for instance. -/
theorem loops_end_for_two_mod_seventeen :
    (∃ root, EndsWith (modSqrt .debug 2 17) (some root)) ∧
      ∃ z,
        EndsWith (fun fuel => findNonResidue .debug fuel 17) z ∧ z < 17 := by
  obtain ⟨root, -, nonResidue, -⟩ :=
    modSqrt_loops_end .debug (by norm_num) (by decide) (by decide)
      (show ¬ 17 ∣ 2 by decide) ⟨6, by decide⟩
  exact ⟨root, nonResidue⟩

end YieldDaemon
