import YieldDaemon.ShadowOperations

namespace YieldDaemon

open CheckedArithmetic LabelledRun

/-!
# Pool directory

A pool is looked up by its key or by its pair of tokens, in a scan over the
registered pools.  The lookups answer as a list of the registrations does that
made it in, whatever else has happened to the pools.
-/

namespace StateShadow

/-- `for i in 0..self.pool_count`, which returns at the first match. -/
def findPoolFrom (shadow : StateShadow) (key : Key) :
    List Nat → Checked (Option Nat)
  | [] => return none
  | i :: later => do
    let pool ← poolIndex i
    if shadow.poolKeys pool = key then
      return some i
    else
      findPoolFrom shadow key later

/-- Find pool index by pool pubkey. -/
def findPool (shadow : StateShadow) (key : Key) : Checked (Option Nat) :=
  shadow.findPoolFrom key (List.range shadow.poolCount)

/-- Push a pool that is active and trades the pair, in either order. -/
def pushIfPair
    (shadow : StateShadow)
    (tokenA tokenB : Nat)
    (result : List Nat)
    (i : Nat) : Checked (List Nat) := do
  let pool ← poolIndex i
  if shadow.active pool = 0 then
    return result
  else
    let x := shadow.tokenXId pool
    let y := shadow.tokenYId pool
    if (x = tokenA ∧ y = tokenB) ∨ (x = tokenB ∧ y = tokenA) then
      return result ++ [i]
    else
      return result

/-- Find all pools that trade a given token pair. Token order doesn't matter. -/
def findPoolsForPair (shadow : StateShadow) (tokenA tokenB : Nat) :
    Checked (List Nat) :=
  (List.range shadow.poolCount).foldlM (shadow.pushIfPair tokenA tokenB) []

/-- The rate of a pool after its fee, as Q32.32: a quotient of two products. -/
def effectiveRate
    (profile : Profile)
    (feeNum feeDen reserveIn reserveOut : Nat) : Checked Nat := do
  let feeComplement ← sub profile 64 feeDen feeNum
  if reserveIn = 0 then
    return 0
  else
    let scaled ← mul profile 128 reserveOut priceScale
    let numerator ← mul profile 128 scaled feeComplement
    let denominator ← mul profile 128 reserveIn feeDen
    let rate ← div numerator denominator
    return rate % 2 ^ 64

/-- Get effective exchange rate from pool i (x→y) as Q32.32. -/
def effectiveRateXToY (profile : Profile) (shadow : StateShadow) (idx : Nat) :
    Checked Nat := do
  let pool ← poolIndex idx
  effectiveRate profile (shadow.feeNum pool) (shadow.feeDen pool)
    (shadow.specReserveX pool) (shadow.specReserveY pool)

/-- Get effective exchange rate from pool i (y→x) as Q32.32. -/
def effectiveRateYToX (profile : Profile) (shadow : StateShadow) (idx : Nat) :
    Checked Nat := do
  let pool ← poolIndex idx
  effectiveRate profile (shadow.feeNum pool) (shadow.feeDen pool)
    (shadow.specReserveY pool) (shadow.specReserveX pool)

/-- The pool of the entry trades the pair, in either order. -/
def Registration.TradesPair
    (tokenA tokenB : Nat)
    (entry : Registration) : Prop :=
  (entry.tokenX = tokenA ∧ entry.tokenY = tokenB) ∨
    (entry.tokenX = tokenB ∧ entry.tokenY = tokenA)

instance (tokenA tokenB : Nat) :
    DecidablePred (Registration.TradesPair tokenA tokenB) :=
  fun entry => inferInstanceAs (Decidable
    ((entry.tokenX = tokenA ∧ entry.tokenY = tokenB) ∨
      (entry.tokenX = tokenB ∧ entry.tokenY = tokenA)))

/-- A registered pool has the columns of its entry. -/
structure Files
    (shadow : StateShadow)
    (pool : PoolIdx)
    (entry : Registration) : Prop where
  key : shadow.poolKeys pool = entry.poolKey
  tokenX : shadow.tokenXId pool = entry.tokenX
  tokenY : shadow.tokenYId pool = entry.tokenY
  active : shadow.active pool = 1

/-- The registered pools are those of the entries, in their order. -/
structure Lists (entries : List Registration) (shadow : StateShadow) :
    Prop where
  count : shadow.poolCount = entries.length
  files :
    ∀ (pool : PoolIdx) (entry : Registration),
      entries[pool.val]? = some entry → shadow.Files pool entry

variable
  {entries : List Registration}
  {shadow : StateShadow}

theorem lists_new : new.Lists [] where
  count := rfl
  files _ _ found := by cases found

/-- The entries from some position on, with what the columns say of each. -/
theorem Lists.of_drop
    (lists : shadow.Lists entries)
    {start : Nat}
    {entry : Registration}
    {later : List Registration}
    (dropped : entries.drop start = entry :: later) :
    ∃ pool : PoolIdx,
      pool.val = start ∧ shadow.Files pool entry ∧
        entries.drop (start + 1) = later := by
  have found : entries[start]? = some entry := by
    rw [← List.head?_drop, dropped, List.head?_cons]
  have inside : start < entries.length :=
    (List.getElem?_eq_some_iff.mp found).1
  have inRange : start < maxPools :=
    inside.trans_le (lists.count ▸ shadow.poolCountInRange)
  refine ⟨⟨start, inRange⟩, rfl, lists.files ⟨start, inRange⟩ entry found, ?_⟩
  rw [← List.tail_drop, dropped, List.tail_cons]

/-- The scan from some position on finds the first of the later entries. -/
theorem Lists.findPoolFrom_eq
    (lists : shadow.Lists entries)
    (key : Key)
    {start : Nat}
    {later : List Registration}
    (dropped : entries.drop start = later) :
    shadow.findPoolFrom key (List.range' start later.length) =
      .ok ((later.findIdx? (fun entry => entry.poolKey = key)).map
        (start + ·)) := by
  induction later generalizing start with
  | nil =>
      rfl
  | cons entry later inductionHypothesis =>
      obtain ⟨pool, rfl, files, next⟩ := lists.of_drop dropped
      rw [List.length_cons, List.range'_succ, findPoolFrom, poolIndex_val,
        Checked.ok_bind, files.key, List.findIdx?_cons]
      by_cases isKey : entry.poolKey = key
      · simp [isKey]
      · rw [if_neg isKey, inductionHypothesis next]
        simp only [isKey, decide_false, Bool.false_eq_true, if_false,
          Option.map_map]
        refine congrArg (fun shift => Except.ok (Option.map shift _)) ?_
        funext i
        simp only [Function.comp_apply]
        omega

/-- The scan of the pairs pushes the positions of the later entries. -/
theorem Lists.foldlM_pushIfPair
    (lists : shadow.Lists entries)
    (tokenA tokenB : Nat)
    {start : Nat}
    {later : List Registration}
    (dropped : entries.drop start = later)
    (result : List Nat) :
    (List.range' start later.length).foldlM
        (shadow.pushIfPair tokenA tokenB) result =
      .ok (result ++
        ((later.zipIdx start).filter
          (fun entry => entry.1.TradesPair tokenA tokenB)).map Prod.snd) := by
  induction later generalizing start result with
  | nil =>
      rw [List.zipIdx_nil, List.filter_nil, List.map_nil, List.append_nil]
      rfl
  | cons entry later inductionHypothesis =>
      obtain ⟨pool, rfl, files, next⟩ := lists.of_drop dropped
      have pushed :
          shadow.pushIfPair tokenA tokenB result pool.val =
            .ok (if entry.TradesPair tokenA tokenB then
              result ++ [pool.val]
            else
              result) := by
        rw [pushIfPair, poolIndex_val, Checked.ok_bind, files.active,
          if_neg Nat.one_ne_zero, files.tokenX, files.tokenY]
        exact (apply_ite Except.ok (entry.TradesPair tokenA tokenB) _ _).symm
      rw [List.length_cons, List.range'_succ, List.foldlM_cons, pushed,
        Checked.ok_bind, inductionHypothesis next, List.zipIdx_cons]
      by_cases trades : entry.TradesPair tokenA tokenB
      · simp [trades]
      · simp [trades]

/-- A pool is found by its key at its first registration. -/
theorem Lists.findPool_eq (lists : shadow.Lists entries) (key : Key) :
    shadow.findPool key =
      .ok (entries.findIdx? (fun entry => entry.poolKey = key)) := by
  have all : entries.drop 0 = entries := List.drop_zero
  have scanned := lists.findPoolFrom_eq key all
  rw [findPool, lists.count, List.range_eq_range', scanned]
  simp

/-- The pools of a pair are found at the registrations of the pair. -/
theorem Lists.findPoolsForPair_eq
    (lists : shadow.Lists entries)
    (tokenA tokenB : Nat) :
    shadow.findPoolsForPair tokenA tokenB =
      .ok ((entries.zipIdx.filter
        (fun entry => entry.1.TradesPair tokenA tokenB)).map Prod.snd) := by
  rw [findPoolsForPair, lists.count, List.range_eq_range',
    lists.foldlM_pushIfPair tokenA tokenB List.drop_zero, List.nil_append]

variable {feeNum feeDen reserveIn reserveOut : Nat}

/-- A rate of a debug build is at most the exact quotient. -/
theorem effectiveRate_mul_le
    {rate : Nat}
    (quoted :
      effectiveRate .debug feeNum feeDen reserveIn reserveOut = .ok rate) :
    rate * (reserveIn * feeDen) ≤
      reserveOut * priceScale * (feeDen - feeNum) := by
  obtain ⟨feeComplement, complement, quoted⟩ := Checked.bind_eq_ok.mp quoted
  obtain ⟨-, rfl⟩ := sub_debug_eq_ok.mp complement
  split at quoted
  · obtain rfl := Except.ok.inj quoted
    rw [Nat.zero_mul]
    exact Nat.zero_le _
  · simp only [Checked.bind_eq_ok, mul, fit_debug_eq_ok, div_eq_ok,
      Checked.pure_eq_ok, Except.ok.injEq] at quoted
    obtain ⟨_, ⟨-, rfl⟩, _, ⟨-, rfl⟩, _, ⟨-, rfl⟩, _, ⟨-, rfl⟩, rfl⟩ :=
      quoted
    exact (Nat.mul_le_mul_right _ (Nat.mod_le _ _)).trans
      (Nat.div_mul_le_self _ _)

/-- Going through a pool and back costs the fee twice, at the quoted rates. -/
theorem rates_keep_fee
    {shadow : StateShadow}
    {pool : PoolIdx}
    {xToY yToX : Nat}
    (forward : shadow.effectiveRateXToY .debug pool.val = .ok xToY)
    (back : shadow.effectiveRateYToX .debug pool.val = .ok yToX)
    (xPositive : 0 < shadow.specReserveX pool)
    (yPositive : 0 < shadow.specReserveY pool) :
    xToY * yToX * (shadow.feeDen pool * shadow.feeDen pool) ≤
      priceScale * priceScale *
        ((shadow.feeDen pool - shadow.feeNum pool) *
          (shadow.feeDen pool - shadow.feeNum pool)) := by
  rw [effectiveRateXToY, poolIndex_val, Checked.ok_bind] at forward
  rw [effectiveRateYToX, poolIndex_val, Checked.ok_bind] at back
  have product :=
    Nat.mul_le_mul (effectiveRate_mul_le forward) (effectiveRate_mul_le back)
  refine Nat.le_of_mul_le_mul_left ?_ (Nat.mul_pos xPositive yPositive)
  calc shadow.specReserveX pool * shadow.specReserveY pool *
          (xToY * yToX * (shadow.feeDen pool * shadow.feeDen pool))
      = xToY * (shadow.specReserveX pool * shadow.feeDen pool) *
          (yToX * (shadow.specReserveY pool * shadow.feeDen pool)) := by
        ring
    _ ≤ shadow.specReserveY pool * priceScale *
            (shadow.feeDen pool - shadow.feeNum pool) *
          (shadow.specReserveX pool * priceScale *
            (shadow.feeDen pool - shadow.feeNum pool)) := product
    _ = shadow.specReserveX pool * shadow.specReserveY pool *
          (priceScale * priceScale *
            ((shadow.feeDen pool - shadow.feeNum pool) *
              (shadow.feeDen pool - shadow.feeNum pool))) := by
        ring

end StateShadow

namespace ShadowOp

open StateShadow

/-- The entry of an operation that registers one. -/
def registration? : ShadowOp → Option Registration
  | register entry => some entry
  | _ => none

/-- The registrations of some operations, as far as there is room. -/
def registrations (ops : List ShadowOp) : List Registration :=
  (ops.filterMap registration?).take maxPools

theorem registrations_snoc (ops : List ShadowOp) (op : ShadowOp) :
    registrations (ops ++ [op]) =
      (registrations ops ++ op.registration?.toList).take maxPools := by
  have last : [op].filterMap registration? = op.registration?.toList := by
    cases taken : op.registration? with
    | none => simp [taken]
    | some entry => simp [taken]
  rw [registrations, List.filterMap_append, last, registrations,
    List.take_append, List.take_append, List.take_take, Nat.min_self,
    List.length_take]
  congr 2
  omega

variable
  {profile : Profile}
  {entries : List Registration}
  {before after : StateShadow}

/-- An operation that writes no column of the directory. -/
theorem lists_of_same
    (lists : before.Lists entries)
    (sameCount : after.poolCount = before.poolCount)
    (sameKeys : after.poolKeys = before.poolKeys)
    (sameX : after.tokenXId = before.tokenXId)
    (sameY : after.tokenYId = before.tokenYId)
    (sameActive : after.active = before.active) :
    after.Lists entries where
  count := sameCount.trans lists.count
  files pool entry found := by
    obtain ⟨key, tokenX, tokenY, active⟩ := lists.files pool entry found
    exact ⟨sameKeys ▸ key, sameX ▸ tokenX, sameY ▸ tokenY,
      sameActive ▸ active⟩

/-- A registration enters its entry, if there is room. -/
theorem lists_register
    {entry : Registration}
    (lists : before.Lists entries)
    (performed : Performs profile before (.register entry) after) :
    after.Lists ((entries ++ [entry]).take maxPools) := by
  obtain ⟨idx, returned⟩ := performs_register performed
  have inRange := before.poolCountInRange
  rcases registerPool_cases returned with
    ⟨full, rfl⟩ | ⟨room, xPerY, yPerX, -, rfl⟩
  · have isFull : entries.length = maxPools :=
      lists.count ▸ Nat.le_antisymm inRange full
    rw [List.take_append_of_le_length isFull.ge, ← isFull, List.take_length]
    exact lists
  · have count := lists.count
    have fits : (entries ++ [entry]).length ≤ maxPools := by
      rw [List.length_append, List.length_singleton, ← count]
      exact room
    rw [List.take_of_length_le fits]
    refine ⟨?_, fun pool other found => ?_⟩
    · rw [List.length_append, List.length_singleton, ← count]
      rfl
    · by_cases isNew : pool.val = before.poolCount
      · obtain rfl : pool = ⟨before.poolCount, room⟩ := Fin.ext isNew
        rw [isNew, count, List.getElem?_concat_length] at found
        obtain rfl := Option.some.inj found
        constructor <;>
          simp [countPool, withPrices, writeRegistration]
      · have isOld : pool.val < entries.length := by
          have inside :=
            (List.getElem?_eq_some_iff.mp found).1
          rw [List.length_append, List.length_singleton] at inside
          omega
        have different : pool ≠ ⟨before.poolCount, room⟩ := fun same =>
          isNew (congrArg Fin.val same)
        rw [List.getElem?_append_left isOld] at found
        obtain ⟨key, tokenX, tokenY, active⟩ := lists.files pool other found
        constructor <;>
          simp [countPool, withPrices, writeRegistration, different, key,
            tokenX, tokenY, active]

/-- Every operation enters its registration, if it has one. -/
theorem lists_step
    {op : ShadowOp}
    (lists : before.Lists entries)
    (performed : Performs profile before op after) :
    after.Lists ((entries ++ op.registration?.toList).take maxPools) := by
  have inRange := before.poolCountInRange
  have unchanged : (entries ++ []).take maxPools = entries := by
    rw [List.append_nil]
    exact List.take_of_length_le (lists.count ▸ inRange)
  cases op with
  | register entry =>
      exact lists_register lists performed
  | update idx reserveX reserveY slot =>
      obtain ⟨pool, xPerY, yPerX, rfl, -, rfl⟩ :=
        updateReserves_cases (performs_update performed)
      exact unchanged.symm ▸ lists_of_same lists rfl rfl rfl rfl rfl
  | swap idx amountIn xToY =>
      obtain ⟨-, amountOut, swapped⟩ := performs_swap performed
      obtain ⟨pool, afterFee, newIn, k, rfl, -, -, rfl⟩ :=
        applySpeculativeSwap_cases swapped
      refine unchanged.symm ▸ lists_of_same lists ?_ ?_ ?_ ?_ ?_ <;>
        (unfold markDirty; split <;> rfl)
  | revert =>
      obtain rfl := performs_revert performed
      exact unchanged.symm ▸ lists_of_same lists rfl rfl rfl rfl rfl
  | newBlock slot =>
      obtain rfl := performs_newBlock performed
      exact unchanged.symm ▸ lists_of_same lists rfl rfl rfl rfl rfl

/--
After any run of operations, a pool is found by its key at its first
registration, and the pools of a pair are those that were registered with the
pair, in either order: updates, swaps, reverts and new blocks change no answer.
-/
theorem lookups_follow_registrations
    {ops : List ShadowOp}
    {shadow : StateShadow}
    (run : Run (Performs profile) StateShadow.new ops shadow) :
    (∀ key,
        shadow.findPool key =
          .ok ((registrations ops).findIdx?
            (fun entry => entry.poolKey = key))) ∧
      ∀ tokenA tokenB,
        shadow.findPoolsForPair tokenA tokenB =
          .ok (((registrations ops).zipIdx.filter
            (fun entry => entry.1.TradesPair tokenA tokenB)).map
              Prod.snd) := by
  have lists : shadow.Lists (registrations ops) := by
    refine Run.preserves_logged
      (fun taken shadow => shadow.Lists (registrations taken)) ?_ run
      (show StateShadow.new.Lists (registrations []) from lists_new)
    intro taken before op after lists performed
    rw [registrations_snoc]
    exact lists_step lists performed
  exact ⟨lists.findPool_eq, lists.findPoolsForPair_eq⟩

/-- A pool of 1000 and 4000 between two tokens, without a fee. -/
def directoryEntry (byte : UInt8) (tokenX tokenY : Nat) : Registration where
  poolKey := Vector.replicate 32 byte
  tokenX := tokenX
  tokenY := tokenY
  reserveX := 1000
  reserveY := 4000
  feeNum := 0
  feeDen := 1000
  slot := 1

/-- Two pools of one pair, the second of them the other way around. -/
theorem both_pools_of_pair_are_found :
    ∃ shadow,
      Run (Performs .debug) StateShadow.new
          [.register (directoryEntry 1 7 8), .swap 0 10 true,
            .register (directoryEntry 2 8 7), .newBlock 5]
          shadow ∧
        shadow.findPool (Vector.replicate 32 2) = .ok (some 1) ∧
        shadow.findPoolsForPair 7 8 = .ok [0, 1] := by
  have ran :
      ∃ shadow,
        Run (Performs .debug) StateShadow.new
          [.register (directoryEntry 1 7 8), .swap 0 10 true,
            .register (directoryEntry 2 8 7), .newBlock 5]
          shadow :=
    ⟨_, .cons ⟨trivial, rfl⟩ (.cons ⟨Nat.zero_lt_one, rfl⟩
      (.cons ⟨trivial, rfl⟩ (.cons ⟨trivial, rfl⟩ (.nil _))))⟩
  obtain ⟨shadow, run⟩ := ran
  obtain ⟨byKey, byPair⟩ := lookups_follow_registrations run
  refine ⟨shadow, run, (byKey _).trans ?_, (byPair 7 8).trans ?_⟩
  · exact congrArg Except.ok (by decide)
  · exact congrArg Except.ok (by decide)

end ShadowOp

end YieldDaemon
