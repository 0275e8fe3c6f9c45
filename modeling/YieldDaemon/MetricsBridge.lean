import YieldDaemon.CheckedArithmetic
import YieldDaemon.LabelledRun

namespace YieldDaemon

open CheckedArithmetic LabelledRun

/-!
# Metrics bridge

The daemon exports its counters to one JSON file for each domain: it loads the
counters one by one, writes a temporary file and renames it.  Meanwhile the
modules count, any write or rename may fail, the daemon may be restarted, and
the off-ramp service reads the files.  A file stands here for the entries of its
JSON object, or is torn while it is being written.
-/

/-- The counters of `DaemonMetrics`. -/
inductive Counter where
  | zkProofsGenerated
  | zkProofsAccepted
  | zkRevenueSat
  | mevOpportunitiesDetected
  | mevBundlesSubmitted
  | mevRevenueSat
  | mlInferencesServed
  | mlTrainingRounds
  | mlRevenueSat
  | totalCycles
  | uptimeSecs
  | asteCycles
  | asteArbDetected
  | asteArbProfitable
  | asteLatencyNs
  | treasuryProfitAccumulated
  | treasuryStablecoinBalance
  | treasuryFiatWithdrawnCents
  | treasuryOfframpCycles
  deriving DecidableEq, Repr

/-- Aggregate metrics across all yield domains. -/
abbrev DaemonMetrics := Counter → Nat

def DaemonMetrics.new : DaemonMetrics :=
  fun _ => 0

/-- The counters that the modules of the daemon add to. -/
def Counter.counted : List Counter :=
  [.zkProofsGenerated, .zkProofsAccepted, .zkRevenueSat,
    .mevOpportunitiesDetected, .mevBundlesSubmitted, .mevRevenueSat,
    .mlInferencesServed, .mlTrainingRounds, .mlRevenueSat]

/-- The files `{zk,mev,ml,treasury}_metrics.json`. -/
inductive MetricsFile where
  | zk
  | mev
  | ml
  | treasury
  deriving DecidableEq, Repr

namespace MetricsFile

/-- The entries of a file and the counters that they show. -/
def entries : MetricsFile → List (String × Counter)
  | zk =>
      [("proofs_generated", .zkProofsGenerated),
        ("proofs_accepted", .zkProofsAccepted),
        ("revenue_sat", .zkRevenueSat)]
  | mev =>
      [("opportunities", .mevOpportunitiesDetected),
        ("bundles_submitted", .mevBundlesSubmitted),
        ("revenue_sat", .mevRevenueSat)]
  | ml =>
      [("inferences", .mlInferencesServed),
        ("training_rounds", .mlTrainingRounds),
        ("revenue_sat", .mlRevenueSat)]
  | treasury =>
      [("profit_accumulated", .treasuryProfitAccumulated),
        ("stablecoin_balance", .treasuryStablecoinBalance),
        ("fiat_withdrawn_cents", .treasuryFiatWithdrawnCents),
        ("offramp_cycles", .treasuryOfframpCycles)]

/-- The order in which the files are exported. -/
def exported : List MetricsFile :=
  [zk, mev, ml, treasury]

end MetricsFile

/-- The values that were loaded for the entries of a file. -/
abbrev Snapshot := List (String × Nat)

/-- What a path holds: a file that is being written, or a whole one. -/
inductive Content where
  | torn
  | whole (snapshot : Snapshot)

/-- Where the export loop is, with the files that it still has to export. -/
inductive Exporter where
  | sleeping
  | loading
      (file : MetricsFile)
      (loaded : Snapshot)
      (left : List (String × Counter))
      (later : List MetricsFile)
  | opening (file : MetricsFile) (body : Snapshot) (later : List MetricsFile)
  | filling (file : MetricsFile) (body : Snapshot) (later : List MetricsFile)
  | replacing (file : MetricsFile) (later : List MetricsFile)

/-- Go on with the next file. -/
def Exporter.next : List MetricsFile → Exporter
  | [] => sleeping
  | file :: later => loading file [] file.entries later

/-- The counters, the export loop and the files. -/
structure Bridge where
  metrics : DaemonMetrics
  exporter : Exporter
  tmp : MetricsFile → Option Content
  published : MetricsFile → Option Content

/-- What may happen next; `succeeds` says whether the system call does. -/
inductive BridgeStep where
  | count (counter : Counter) (amount : Nat)
  | uptime (secs : Nat)
  | wake
  | load
  | openTmp (succeeds : Bool)
  | writeTmp (succeeds : Bool)
  | rename (succeeds : Bool)
  | restart

namespace Bridge

/-- Before the first start of the daemon there are no files. -/
def start : Bridge where
  metrics := DaemonMetrics.new
  exporter := .sleeping
  tmp := fun _ => none
  published := fun _ => none

/-- `std::fs::write` truncates the temporary file before it fills it. -/
def step (bridge : Bridge) : BridgeStep → Option Bridge
  | .count counter amount =>
      if counter ∈ Counter.counted then
        some { bridge with
          metrics := Function.update bridge.metrics counter
            (fetchAdd (bridge.metrics counter) amount) }
      else
        none
  | .uptime secs =>
      some { bridge with
        metrics := Function.update bridge.metrics .uptimeSecs secs }
  | .wake =>
      match bridge.exporter with
      | .sleeping =>
          some { bridge with exporter := Exporter.next MetricsFile.exported }
      | _ => none
  | .load =>
      match bridge.exporter with
      | .loading file loaded ((name, counter) :: left) later =>
          some { bridge with
            exporter :=
              .loading file (loaded ++ [(name, bridge.metrics counter)]) left
                later }
      | .loading file loaded [] later =>
          some { bridge with exporter := .opening file loaded later }
      | _ => none
  | .openTmp succeeds =>
      match bridge.exporter with
      | .opening file body later =>
          if succeeds then
            some { bridge with
              exporter := .filling file body later
              tmp := Function.update bridge.tmp file (some .torn) }
          else
            some { bridge with exporter := Exporter.next later }
      | _ => none
  | .writeTmp succeeds =>
      match bridge.exporter with
      | .filling file body later =>
          if succeeds then
            some { bridge with
              exporter := .replacing file later
              tmp := Function.update bridge.tmp file (some (.whole body)) }
          else
            some { bridge with exporter := Exporter.next later }
      | _ => none
  | .rename succeeds =>
      match bridge.exporter with
      | .replacing file later =>
          if succeeds then
            some { bridge with
              exporter := Exporter.next later
              tmp := Function.update bridge.tmp file none
              published :=
                Function.update bridge.published file (bridge.tmp file) }
          else
            some { bridge with exporter := Exporter.next later }
      | _ => none
  | .restart =>
      some { bridge with
        metrics := DaemonMetrics.new
        exporter := .sleeping }

/-- The step can be taken and leads to the next state. -/
def Steps (before : Bridge) (taken : BridgeStep) (after : Bridge) : Prop :=
  before.step taken = some after

/-- The value of a key of a JSON object, or 0. -/
def valueOf (name : String) (snapshot : Snapshot) : Nat :=
  ((snapshot.find? (fun entry => entry.1 = name)).map Prod.snd).getD 0

/--
What a reader takes from the file of a domain: 0 if the path does not exist or
cannot be decoded.
-/
def readValue (bridge : Bridge) (file : MetricsFile) (name : String) : Nat :=
  match bridge.published file with
  | some (.whole snapshot) => valueOf name snapshot
  | some .torn => 0
  | none => 0

/-- The revenue of a domain that `read_daemon_metrics` takes from its file. -/
def readRevenue (bridge : Bridge) (file : MetricsFile) : Nat :=
  bridge.readValue file "revenue_sat"

/--
The total that `read_daemon_metrics` returns; it reads the three files one after
the other, each at a moment of its own.
-/
def readDaemonMetrics (atZk atMev atMl : Bridge) : Nat :=
  atZk.readRevenue .zk + atMev.readRevenue .mev + atMl.readRevenue .ml

/-- A snapshot of some entries, each with a good value of its counter. -/
def Shows
    (good : Counter → Nat → Prop)
    (entries : List (String × Counter))
    (snapshot : Snapshot) : Prop :=
  List.Forall₂
    (fun entry shown => shown.1 = entry.1 ∧ good entry.2 shown.2)
    entries snapshot

variable
  {good better : Counter → Nat → Prop}
  {entries : List (String × Counter)}
  {snapshot : Snapshot}

theorem Shows.mono
    (shows_ : Shows good entries snapshot)
    (weaker : ∀ entry ∈ entries, ∀ value,
      good entry.2 value → better entry.2 value) :
    Shows better entries snapshot := by
  induction shows_ with
  | nil =>
      exact .nil
  | cons head _ inductionHypothesis =>
      rw [List.forall_mem_cons] at weaker
      exact .cons ⟨head.1, weaker.1 _ head.2⟩
        (inductionHypothesis weaker.2)

/-- One more entry is shown with the value that was loaded for it. -/
theorem Shows.snoc
    {name : String}
    {counter : Counter}
    {value : Nat}
    (shows_ : Shows good entries snapshot)
    (isGood : good counter value) :
    Shows good (entries ++ [(name, counter)]) (snapshot ++ [(name, value)]) :=
  List.rel_append shows_ (.cons ⟨rfl, isGood⟩ .nil)

/-- The value of a key is a good value of the counter of its entry. -/
theorem Shows.valueOf
    {name : String}
    {counter : Counter}
    (shows_ : Shows good entries snapshot)
    (distinct : (entries.map Prod.fst).Nodup)
    (member : (name, counter) ∈ entries) :
    good counter (valueOf name snapshot) := by
  induction shows_ with
  | nil =>
      exact absurd member List.not_mem_nil
  | @cons entry shown _ _ head _ inductionHypothesis =>
      rw [List.map_cons, List.nodup_cons] at distinct
      unfold Bridge.valueOf
      rcases List.mem_cons.mp member with rfl | later
      · rw [List.find?_cons_of_pos (by simp [head.1])]
        exact head.2
      · have notFirst : shown.1 ≠ name := by
          rintro rfl
          exact distinct.1
            (head.1 ▸ List.mem_map_of_mem (f := Prod.fst) later)
        rw [List.find?_cons_of_neg (by simpa using notFirst)]
        exact inductionHypothesis distinct.2 later

/-- The export loop carries good values of the counters. -/
def Exporter.Carries
    (good : Counter → Nat → Prop)
    (tmp : MetricsFile → Option Content) : Exporter → Prop
  | .sleeping => True
  | .loading file loaded left _ =>
      ∃ done, file.entries = done ++ left ∧ Shows good done loaded
  | .opening file body _ => Shows good file.entries body
  | .filling file body _ => Shows good file.entries body
  | .replacing file _ =>
      ∃ body, tmp file = some (.whole body) ∧ Shows good file.entries body

/-- Files are whole, and so is what will be renamed, with good values. -/
structure Traced (good : Counter → Nat → Prop) (bridge : Bridge) : Prop where
  exporter : Exporter.Carries good bridge.tmp bridge.exporter
  published :
    ∀ file content, bridge.published file = some content →
      ∃ snapshot,
        content = .whole snapshot ∧ Shows good file.entries snapshot

theorem carries_next
    (good : Counter → Nat → Prop)
    (tmp : MetricsFile → Option Content)
    (later : List MetricsFile) :
    Exporter.Carries good tmp (Exporter.next later) := by
  cases later with
  | nil =>
      trivial
  | cons file later =>
      exact ⟨[], rfl, .nil⟩

variable {before after : Bridge} {taken : BridgeStep}

/-- A step carries on what is good, if it loads good values only. -/
theorem Traced.step
    (traced : before.Traced good)
    (loads : ∀ counter, good counter (before.metrics counter))
    (stepped : before.Steps taken after) :
    after.Traced good := by
  obtain ⟨metrics, exporter, tmp, published⟩ := before
  obtain ⟨carries, whole⟩ := traced
  unfold Steps Bridge.step at stepped
  cases taken with
  | count counter amount =>
      dsimp only at stepped
      split at stepped
      · obtain rfl := Option.some.inj stepped
        exact ⟨carries, whole⟩
      · cases stepped
  | uptime secs =>
      obtain rfl := Option.some.inj stepped
      exact ⟨carries, whole⟩
  | restart =>
      obtain rfl := Option.some.inj stepped
      exact ⟨trivial, whole⟩
  | wake =>
      cases exporter with
      | sleeping =>
          obtain rfl := Option.some.inj stepped
          exact ⟨carries_next good tmp MetricsFile.exported, whole⟩
      | loading file loaded left later => cases stepped
      | opening file body later => cases stepped
      | filling file body later => cases stepped
      | replacing file later => cases stepped
  | load =>
      cases exporter with
      | loading file loaded left later =>
          obtain ⟨done, split, loadedGood⟩ := carries
          cases left with
          | nil =>
              obtain rfl := Option.some.inj stepped
              rw [List.append_nil] at split
              have carried : Shows good file.entries loaded :=
                split ▸ loadedGood
              exact ⟨carried, whole⟩
          | cons entry left =>
              obtain ⟨name, counter⟩ := entry
              obtain rfl := Option.some.inj stepped
              refine ⟨⟨done ++ [(name, counter)], ?_, ?_⟩, whole⟩
              · rw [split, List.append_assoc]
                rfl
              · exact loadedGood.snoc (loads counter)
      | sleeping => cases stepped
      | opening file body later => cases stepped
      | filling file body later => cases stepped
      | replacing file later => cases stepped
  | openTmp succeeds =>
      cases exporter with
      | opening file body later =>
          cases succeeds with
          | true =>
              obtain rfl := Option.some.inj stepped
              exact ⟨carries, whole⟩
          | false =>
              obtain rfl := Option.some.inj stepped
              exact ⟨carries_next good tmp later, whole⟩
      | sleeping => cases stepped
      | loading file loaded left later => cases stepped
      | filling file body later => cases stepped
      | replacing file later => cases stepped
  | writeTmp succeeds =>
      cases exporter with
      | filling file body later =>
          cases succeeds with
          | true =>
              obtain rfl := Option.some.inj stepped
              exact
                ⟨⟨body, Function.update_self file _ tmp, carries⟩, whole⟩
          | false =>
              obtain rfl := Option.some.inj stepped
              exact ⟨carries_next good tmp later, whole⟩
      | sleeping => cases stepped
      | loading file loaded left later => cases stepped
      | opening file body later => cases stepped
      | replacing file later => cases stepped
  | rename succeeds =>
      cases exporter with
      | replacing file later =>
          obtain ⟨body, isBody, bodyGood⟩ := carries
          cases succeeds with
          | true =>
              obtain rfl := Option.some.inj stepped
              refine ⟨carries_next good _ later, fun other content shown => ?_⟩
              dsimp only at shown
              by_cases same : other = file
              · rw [same, Function.update_self] at shown
                obtain rfl := Option.some.inj (isBody.symm.trans shown)
                exact ⟨body, rfl, same ▸ bodyGood⟩
              · rw [Function.update_of_ne same] at shown
                exact whole other content shown
          | false =>
              obtain rfl := Option.some.inj stepped
              exact ⟨carries_next good tmp later, whole⟩
      | sleeping => cases stepped
      | loading file loaded left later => cases stepped
      | opening file body later => cases stepped
      | filling file body later => cases stepped

/-- What is good for the entries of every file is good for what is traced. -/
theorem Traced.mono
    (traced : before.Traced good)
    (weaker : ∀ file : MetricsFile, ∀ entry ∈ file.entries, ∀ value,
      good entry.2 value → better entry.2 value) :
    before.Traced better := by
  obtain ⟨metrics, exporter, tmp, published⟩ := before
  obtain ⟨carries, whole⟩ := traced
  refine ⟨?_, ?_⟩
  · cases exporter with
    | sleeping =>
        trivial
    | loading file loaded left later =>
        obtain ⟨done, split, loadedGood⟩ := carries
        refine ⟨done, split, loadedGood.mono fun entry member => ?_⟩
        exact weaker file entry
          (split ▸ List.mem_append_left left member)
    | opening file body later =>
        exact Shows.mono carries (weaker file)
    | filling file body later =>
        exact Shows.mono carries (weaker file)
    | replacing file later =>
        obtain ⟨body, isBody, bodyGood⟩ := carries
        exact ⟨body, isBody, bodyGood.mono (weaker file)⟩
  · intro file content shown
    obtain ⟨snapshot, isWhole, isGood⟩ := whole file content shown
    exact ⟨snapshot, isWhole, isGood.mono (weaker file)⟩

theorem traced_start (good : Counter → Nat → Prop) : start.Traced good where
  exporter := trivial
  published := nofun

/-! Published values were counted. -/

/-- The counter had the value at some point of the log. -/
def Had (log : List BridgeStep) (counter : Counter) (value : Nat) : Prop :=
  ∃ earlier reached,
    earlier <+: log ∧ Run Steps start earlier reached ∧
      reached.metrics counter = value

/-- The counters after a step. -/
def metricsAfter (metrics : DaemonMetrics) : BridgeStep → DaemonMetrics
  | .count counter amount =>
      Function.update metrics counter (fetchAdd (metrics counter) amount)
  | .uptime secs => Function.update metrics .uptimeSecs secs
  | .restart => DaemonMetrics.new
  | _ => metrics

/-- The files after a step: as before, or one replaced by what was written. -/
def Replaces (before after : Bridge) : Prop :=
  after.published = before.published ∨
    ∃ file later,
      before.exporter = .replacing file later ∧
        after.exporter = Exporter.next later ∧
        after.published =
          Function.update before.published file (before.tmp file)

/-- What a step does to the counters and to the files. -/
theorem step_cases (stepped : before.Steps taken after) :
    after.metrics = metricsAfter before.metrics taken ∧
      Replaces before after := by
  unfold Steps Bridge.step at stepped
  cases taken with
  | count counter amount =>
      dsimp only at stepped
      split at stepped
      · obtain rfl := Option.some.inj stepped
        exact ⟨rfl, .inl rfl⟩
      · cases stepped
  | uptime secs =>
      obtain rfl := Option.some.inj stepped
      exact ⟨rfl, .inl rfl⟩
  | restart =>
      obtain rfl := Option.some.inj stepped
      exact ⟨rfl, .inl rfl⟩
  | wake =>
      dsimp only at stepped
      split at stepped
      · obtain rfl := Option.some.inj stepped
        exact ⟨rfl, .inl rfl⟩
      · cases stepped
  | load =>
      dsimp only at stepped
      split at stepped
      · obtain rfl := Option.some.inj stepped
        exact ⟨rfl, .inl rfl⟩
      · obtain rfl := Option.some.inj stepped
        exact ⟨rfl, .inl rfl⟩
      · cases stepped
  | openTmp succeeds =>
      dsimp only at stepped
      split at stepped
      · split at stepped <;>
          (obtain rfl := Option.some.inj stepped; exact ⟨rfl, .inl rfl⟩)
      · cases stepped
  | writeTmp succeeds =>
      dsimp only at stepped
      split at stepped
      · split at stepped <;>
          (obtain rfl := Option.some.inj stepped; exact ⟨rfl, .inl rfl⟩)
      · cases stepped
  | rename succeeds =>
      dsimp only at stepped
      split at stepped
      next file later isReplacing =>
        split at stepped
        · obtain rfl := Option.some.inj stepped
          exact ⟨rfl, .inr ⟨file, later, isReplacing, rfl, rfl⟩⟩
        · obtain rfl := Option.some.inj stepped
          exact ⟨rfl, .inl rfl⟩
      next =>
        cases stepped

/-- A step that counts adds to one of the counted counters. -/
theorem counted_of_step
    {counter : Counter}
    {amount : Nat}
    (stepped : before.Steps (.count counter amount) after) :
    counter ∈ Counter.counted := by
  by_contra uncounted
  have refused : before.step (.count counter amount) = none :=
    if_neg uncounted
  rw [Steps, refused] at stepped
  cases stepped

/-- A counter that no module adds to, the uptime apart, stays at 0. -/
theorem metrics_uncounted
    {log : List BridgeStep}
    {bridge : Bridge}
    {counter : Counter}
    (reached : Run Steps start log bridge)
    (uncounted : counter ∉ Counter.counted)
    (notUptime : counter ≠ .uptimeSecs) :
    bridge.metrics counter = 0 := by
  refine Run.preserves (fun bridge => bridge.metrics counter = 0) ?_ reached
    rfl
  intro before taken after isZero stepped
  rw [(step_cases stepped).1]
  cases taken with
  | count other amount =>
      have different : counter ≠ other := by
        rintro rfl
        exact uncounted (counted_of_step stepped)
      exact (Function.update_of_ne different _ _).trans isZero
  | uptime secs =>
      exact (Function.update_of_ne notUptime _ _).trans isZero
  | restart => rfl
  | wake => exact isZero
  | load => exact isZero
  | openTmp succeeds => exact isZero
  | writeTmp succeeds => exact isZero
  | rename succeeds => exact isZero

/-- What is on its way to the files was counted before. -/
theorem traced_had
    {log : List BridgeStep}
    {bridge : Bridge}
    (reached : Run Steps start log bridge) :
    bridge.Traced (Had log) := by
  have kept : Run Steps start log bridge ∧ bridge.Traced (Had log) := by
    refine Run.preserves_logged
      (fun log bridge => Run Steps start log bridge ∧ bridge.Traced (Had log))
      ?_ reached (show Run Steps start [] start ∧ start.Traced (Had [])
        from ⟨.nil start, traced_start _⟩)
    rintro log before taken after ⟨run, traced⟩ stepped
    refine ⟨run.snoc stepped, ?_⟩
    have loads : ∀ counter, Had log counter (before.metrics counter) :=
      fun counter => ⟨log, before, List.prefix_rfl, run, rfl⟩
    refine (traced.step loads stepped).mono
      fun file entry member value had => ?_
    obtain ⟨earlier, middle, isEarlier, middleRun, isValue⟩ := had
    exact ⟨earlier, middle, isEarlier.trans (List.prefix_append log [taken]),
      middleRun, isValue⟩
  exact kept.2

/-- The entries of the treasury show counters that nothing adds to. -/
theorem treasury_uncounted :
    ∀ entry ∈ MetricsFile.treasury.entries,
      entry.2 ∉ Counter.counted ∧ entry.2 ≠ .uptimeSecs := by
  decide

/--
Whatever fails and whenever the daemon restarts, a file that exists is whole and
has all of its entries.  Each shows a value that its counter had at some point,
and those of the treasury show 0.
-/
theorem published_values_were_counted
    {log : List BridgeStep}
    {bridge : Bridge}
    {file : MetricsFile}
    {content : Content}
    (reached : Run Steps start log bridge)
    (published : bridge.published file = some content) :
    ∃ snapshot,
      content = .whole snapshot ∧
        Shows (Had log) file.entries snapshot ∧
        (file = .treasury →
          Shows (fun _ value => value = 0) file.entries snapshot) := by
  obtain ⟨snapshot, isWhole, isShown⟩ :=
    (traced_had reached).published file content published
  refine ⟨snapshot, isWhole, isShown, ?_⟩
  rintro rfl
  refine isShown.mono fun entry member value had => ?_
  obtain ⟨uncounted, notUptime⟩ := treasury_uncounted entry member
  obtain ⟨earlier, middle, -, run, isValue⟩ := had
  rw [← isValue]
  exact metrics_uncounted run uncounted notUptime

/-- The zk file fails to be written, the next one appears, then a restart. -/
theorem mev_file_outlives_restart :
    ∃ log bridge content,
      Run Steps start log bridge ∧
        bridge.published .mev = some content ∧
        ∃ snapshot,
          content = .whole snapshot ∧
            Shows (Had log) MetricsFile.mev.entries snapshot ∧
            (MetricsFile.mev = .treasury →
              Shows (fun _ value => value = 0) MetricsFile.mev.entries
                snapshot) := by
  have reached :
      ∃ bridge,
        Run Steps start
            [.count .mevRevenueSat 7, .wake, .load, .load, .load, .load,
              .openTmp true, .writeTmp false, .load, .load, .load, .load,
              .openTmp true, .writeTmp true, .rename true, .restart] bridge ∧
          bridge.published .mev =
            some (.whole [("opportunities", 0), ("bundles_submitted", 0),
              ("revenue_sat", 7)]) :=
    ⟨_,
      .cons rfl (.cons rfl (.cons rfl (.cons rfl (.cons rfl (.cons rfl
        (.cons rfl (.cons rfl (.cons rfl (.cons rfl (.cons rfl (.cons rfl
          (.cons rfl (.cons rfl (.cons rfl (.cons rfl
            (.nil _)))))))))))))))),
      rfl⟩
  obtain ⟨bridge, run, published⟩ := reached
  exact ⟨_, bridge, _, run, published,
    published_values_were_counted run published⟩

/-! Read values do not fall. -/

/-- The process goes on, and no counter is pushed beyond 64 bits. -/
def KeepsCounting (before : Bridge) : BridgeStep → Prop
  | .count counter amount => before.metrics counter + amount < 2 ^ 64
  | .restart => False
  | _ => True

/-- The steps that keep counting. -/
def CountingSteps
    (before : Bridge)
    (taken : BridgeStep)
    (after : Bridge) : Prop :=
  before.Steps taken after ∧ before.KeepsCounting taken

/-- Such a step does not lower a counter, unless it is the uptime. -/
theorem metrics_le_of_step
    {counter : Counter}
    (stepped : CountingSteps before taken after)
    (notUptime : counter ≠ .uptimeSecs) :
    before.metrics counter ≤ after.metrics counter := by
  obtain ⟨stepped, keeps⟩ := stepped
  rw [(step_cases stepped).1]
  cases taken with
  | count other amount =>
      by_cases same : other = counter
      · subst same
        simp only [metricsAfter, Function.update_self, fetchAdd]
        rw [Nat.mod_eq_of_lt keeps]
        exact Nat.le_add_right _ _
      · simp only [metricsAfter]
        rw [Function.update_of_ne (Ne.symm same)]
  | uptime secs =>
      simp only [metricsAfter]
      rw [Function.update_of_ne notUptime]
  | restart => exact keeps.elim
  | wake => exact Nat.le_refl _
  | load => exact Nat.le_refl _
  | openTmp succeeds => exact Nat.le_refl _
  | writeTmp succeeds => exact Nat.le_refl _
  | rename succeeds => exact Nat.le_refl _

/-- A counter is shown by one entry of one file. -/
theorem entry_unique (first second : MetricsFile) :
    ∀ entry ∈ first.entries, ∀ other ∈ second.entries,
      entry.2 = other.2 → first = second ∧ entry = other := by
  cases first <;> cases second <;> decide

/-- No file shows the uptime. -/
theorem uptime_unpublished (file : MetricsFile) :
    ∀ entry ∈ file.entries, entry.2 ≠ .uptimeSecs := by
  cases file <;> decide

theorem names_distinct (file : MetricsFile) :
    (file.entries.map Prod.fst).Nodup := by
  cases file <;> decide

variable
  {file : MetricsFile}
  {name : String}
  {counter : Counter}

/-- The value of a key is what its entry shows. -/
theorem Shows.exactly
    (shows_ : Shows good entries snapshot)
    (distinct : (entries.map Prod.fst).Nodup)
    (unique : ∀ entry ∈ entries, entry.2 = counter → entry.1 = name) :
    Shows (fun other value => other = counter → value = Bridge.valueOf name snapshot)
      entries snapshot := by
  induction shows_ with
  | nil =>
      exact .nil
  | @cons entry shown others later head tail inductionHypothesis =>
      rw [List.map_cons, List.nodup_cons] at distinct
      rw [List.forall_mem_cons] at unique
      have laterExact := inductionHypothesis distinct.2 unique.2
      by_cases isFirst : shown.1 = name
      · -- No later entry shows the counter, since it would have this name.
        have first : Bridge.valueOf name (shown :: later) = shown.2 := by
          unfold Bridge.valueOf
          rw [List.find?_cons_of_pos (by simp [isFirst])]
          rfl
        have unshown : ∀ other ∈ others, other.2 ≠ counter := by
          intro other member same
          have sameName := unique.2 other member same
          rw [← isFirst, head.1] at sameName
          exact distinct.1 (List.mem_map.mpr ⟨other, member, sameName⟩)
        have others_ :
            Shows
              (fun other value =>
                other = counter →
                  value = Bridge.valueOf name (shown :: later))
              others later :=
          Shows.mono laterExact fun other member value _ same =>
            absurd same (unshown other member)
        exact .cons ⟨head.1, fun _ => first.symm⟩ others_
      · have skips :
            Bridge.valueOf name (shown :: later) = Bridge.valueOf name later := by
          unfold Bridge.valueOf
          rw [List.find?_cons_of_neg (by simpa using isFirst)]
        rw [skips]
        refine .cons ⟨head.1, fun same => ?_⟩ laterExact
        exact absurd (head.1.trans (unique.1 same)) isFirst

/-- Traced values of the counter are at least what is read, at most the count. -/
structure Ordered
    (file : MetricsFile)
    (name : String)
    (counter : Counter)
    (bridge : Bridge) : Prop where
  atMost :
    bridge.Traced
      (fun other value => other = counter → value ≤ bridge.metrics counter)
  atLeast :
    bridge.Traced
      (fun other value =>
        other = counter → bridge.readValue file name ≤ value)

/-- What is read has been counted by now. -/
theorem Ordered.read_le
    (ordered : before.Ordered file name counter)
    (member : (name, counter) ∈ file.entries) :
    before.readValue file name ≤ before.metrics counter := by
  unfold readValue
  cases published : before.published file with
  | none =>
      exact Nat.zero_le _
  | some content =>
      obtain ⟨snapshot, rfl, shown⟩ :=
        ordered.atMost.published file content published
      exact Shows.valueOf shown (names_distinct file) member rfl

/-- A step keeps the order, and what is read does not fall. -/
theorem Ordered.step
    (ordered : before.Ordered file name counter)
    (member : (name, counter) ∈ file.entries)
    (stepped : CountingSteps before taken after) :
    after.Ordered file name counter ∧
      before.readValue file name ≤ after.readValue file name := by
  have grows :=
    metrics_le_of_step stepped (uptime_unpublished file _ member)
  obtain ⟨stepped, -⟩ := stepped
  have readLe := ordered.read_le member
  have atMost :
      after.Traced
        (fun other value =>
          other = counter → value ≤ after.metrics counter) := by
    refine (ordered.atMost.step ?_ stepped).mono
      fun _ _ _ value small same => (small same).trans grows
    rintro other rfl
    exact Nat.le_refl _
  have atLeast :
      after.Traced
        (fun other value =>
          other = counter → before.readValue file name ≤ value) := by
    refine ordered.atLeast.step ?_ stepped
    rintro other rfl
    exact readLe
  rcases (step_cases stepped).2 with
    same | ⟨replaced, later, isReplacing, goesOn, published⟩
  · have sameRead :
        after.readValue file name = before.readValue file name := by
      unfold readValue
      rw [same]
    exact ⟨⟨atMost, sameRead ▸ atLeast⟩, sameRead.ge⟩
  · by_cases isFile : replaced = file
    · subst isFile
      have carried := ordered.atLeast.exporter
      rw [isReplacing] at carried
      obtain ⟨body, isBody, bodyShows⟩ := carried
      have published' :
          after.published replaced = some (.whole body) := by
        rw [published, Function.update_self, isBody]
      have read : after.readValue replaced name = valueOf name body := by
        unfold readValue
        rw [published']
      have grown :
          before.readValue replaced name ≤ valueOf name body :=
        Shows.valueOf bodyShows (names_distinct replaced) member rfl
      refine ⟨⟨atMost, ⟨?_, fun other content shown => ?_⟩⟩,
        read.symm ▸ grown⟩
      · rw [goesOn]
        exact carries_next _ _ later
      · obtain ⟨snapshot, isWhole, shows_⟩ :=
          atLeast.published other content shown
        refine ⟨snapshot, isWhole, ?_⟩
        by_cases same : other = replaced
        · subst same
          obtain rfl :=
            Content.whole.inj
              (isWhole.symm.trans (Option.some.inj (shown.symm.trans published')))
          have exactly := Shows.exactly shows_ (names_distinct other)
            (fun entry entryMember sameCounter =>
              congrArg Prod.fst
                (entry_unique other other entry entryMember _ member
                  sameCounter).2)
          exact exactly.mono fun entry _ value isValue sameCounter =>
            read.trans (isValue sameCounter).symm |>.le
        · refine shows_.mono fun entry entryMember value _ sameCounter => ?_
          exact absurd
            (entry_unique other replaced entry entryMember _ member
              sameCounter).1 same
    · have sameRead :
          after.readValue file name = before.readValue file name := by
        unfold readValue
        rw [published, Function.update_of_ne (Ne.symm isFile)]
      exact ⟨⟨atMost, sameRead ▸ atLeast⟩, sameRead.ge⟩

theorem ordered_start
    (file : MetricsFile)
    (name : String)
    (counter : Counter) :
    start.Ordered file name counter :=
  ⟨traced_start _, traced_start _⟩

/-- The daemon goes from one moment to a later one while it keeps counting. -/
def GoesOn (earlier later : Bridge) : Prop :=
  ∃ log, Run CountingSteps earlier log later

/-- Every moment of a counting daemon is ordered. -/
theorem GoesOn.ordered
    (goesOn : start.GoesOn after)
    (member : (name, counter) ∈ file.entries) :
    after.Ordered file name counter := by
  obtain ⟨log, run⟩ := goesOn
  exact Run.preserves (Ordered file name counter)
    (fun ordered stepped => (ordered.step member stepped).1) run
    (ordered_start file name counter)

theorem GoesOn.trans
    {middle : Bridge}
    (first : before.GoesOn middle)
    (second : middle.GoesOn after) :
    before.GoesOn after := by
  obtain ⟨firstLog, firstRun⟩ := first
  obtain ⟨secondLog, secondRun⟩ := second
  exact ⟨firstLog ++ secondLog, firstRun.append secondRun⟩

/-- A value that is read later is not smaller. -/
theorem GoesOn.readValue_le
    (reached : start.GoesOn before)
    (goesOn : before.GoesOn after)
    (member : (name, counter) ∈ file.entries) :
    before.readValue file name ≤ after.readValue file name := by
  obtain ⟨log, run⟩ := goesOn
  have kept :
      after.Ordered file name counter ∧
        before.readValue file name ≤ after.readValue file name := by
    refine Run.preserves
      (fun bridge => bridge.Ordered file name counter ∧
        before.readValue file name ≤ bridge.readValue file name)
      ?_ run ⟨reached.ordered member, Nat.le_refl _⟩
    rintro middle taken later ⟨ordered, grown⟩ stepped
    obtain ⟨orderedLater, grows⟩ := ordered.step member stepped
    exact ⟨orderedLater, grown.trans grows⟩
  exact kept.2

/-- Counters other than the uptime do not fall. -/
theorem GoesOn.metrics_le
    (goesOn : before.GoesOn after)
    (notUptime : counter ≠ .uptimeSecs) :
    before.metrics counter ≤ after.metrics counter := by
  obtain ⟨log, run⟩ := goesOn
  exact Run.preserves
    (fun bridge => before.metrics counter ≤ bridge.metrics counter)
    (fun grown stepped =>
      grown.trans (metrics_le_of_step stepped notUptime))
    run (Nat.le_refl _)

/--
While one process of the daemon keeps counting, the off-ramp service never sees
the total revenue fall from one call to the next, and never sees more than the
daemon has counted when the call returns, although each call reads the three
files at different moments.
-/
theorem daemon_metrics_never_fall
    {zkFirst mevFirst mlFirst zkSecond mevSecond mlSecond : Bridge}
    (started : start.GoesOn zkFirst)
    (mevAfterZk : zkFirst.GoesOn mevFirst)
    (mlAfterMev : mevFirst.GoesOn mlFirst)
    (secondCall : mlFirst.GoesOn zkSecond)
    (mevAfterZk' : zkSecond.GoesOn mevSecond)
    (mlAfterMev' : mevSecond.GoesOn mlSecond) :
    readDaemonMetrics zkFirst mevFirst mlFirst ≤
        readDaemonMetrics zkSecond mevSecond mlSecond ∧
      readDaemonMetrics zkSecond mevSecond mlSecond ≤
        mlSecond.metrics .zkRevenueSat + mlSecond.metrics .mevRevenueSat +
          mlSecond.metrics .mlRevenueSat := by
  have zkMember :
      ("revenue_sat", Counter.zkRevenueSat) ∈ MetricsFile.zk.entries := by
    decide
  have mevMember :
      ("revenue_sat", Counter.mevRevenueSat) ∈ MetricsFile.mev.entries := by
    decide
  have mlMember :
      ("revenue_sat", Counter.mlRevenueSat) ∈ MetricsFile.ml.entries := by
    decide
  have mevReached := started.trans mevAfterZk
  have mlReached := mevReached.trans mlAfterMev
  have zkReached' := mlReached.trans secondCall
  have mevReached' := zkReached'.trans mevAfterZk'
  have mlReached' := mevReached'.trans mlAfterMev'
  have zkGrows : zkFirst.readRevenue .zk ≤ zkSecond.readRevenue .zk :=
    started.readValue_le
      (mevAfterZk.trans (mlAfterMev.trans secondCall)) zkMember
  have mevGrows : mevFirst.readRevenue .mev ≤ mevSecond.readRevenue .mev :=
    mevReached.readValue_le
      (mlAfterMev.trans (secondCall.trans mevAfterZk')) mevMember
  have mlGrows : mlFirst.readRevenue .ml ≤ mlSecond.readRevenue .ml :=
    mlReached.readValue_le
      (secondCall.trans (mevAfterZk'.trans mlAfterMev')) mlMember
  have zkCounted :
      zkSecond.readRevenue .zk ≤ mlSecond.metrics .zkRevenueSat :=
    ((zkReached'.ordered zkMember).read_le zkMember).trans
      ((mevAfterZk'.trans mlAfterMev').metrics_le (by decide))
  have mevCounted :
      mevSecond.readRevenue .mev ≤ mlSecond.metrics .mevRevenueSat :=
    ((mevReached'.ordered mevMember).read_le mevMember).trans
      (mlAfterMev'.metrics_le (by decide))
  have mlCounted :
      mlSecond.readRevenue .ml ≤ mlSecond.metrics .mlRevenueSat :=
    (mlReached'.ordered mlMember).read_le mlMember
  exact
    ⟨Nat.add_le_add (Nat.add_le_add zkGrows mevGrows) mlGrows,
      Nat.add_le_add (Nat.add_le_add zkCounted mevCounted) mlCounted⟩

/-- Five units of revenue are read after an export, none before it. -/
theorem counted_revenue_reaches_the_reader :
    ∃ after,
      start.GoesOn after ∧
        readDaemonMetrics start start start = 0 ∧
        readDaemonMetrics after after after = 5 ∧
        (readDaemonMetrics start start start ≤
            readDaemonMetrics after after after ∧
          readDaemonMetrics after after after ≤
            after.metrics .zkRevenueSat + after.metrics .mevRevenueSat +
              after.metrics .mlRevenueSat) := by
  have exported :
      ∃ after,
        Run CountingSteps start
            [.count .zkRevenueSat 5, .wake, .load, .load, .load, .load,
              .openTmp true, .writeTmp true, .rename true] after ∧
          readDaemonMetrics after after after = 5 :=
    ⟨_,
      .cons ⟨rfl, (by decide : 0 + 5 < 2 ^ 64)⟩
        (.cons ⟨rfl, trivial⟩ (.cons ⟨rfl, trivial⟩ (.cons ⟨rfl, trivial⟩
          (.cons ⟨rfl, trivial⟩ (.cons ⟨rfl, trivial⟩ (.cons ⟨rfl, trivial⟩
            (.cons ⟨rfl, trivial⟩ (.cons ⟨rfl, trivial⟩ (.nil _))))))))),
      rfl⟩
  obtain ⟨after, run, read⟩ := exported
  have here : ∀ bridge, GoesOn bridge bridge :=
    fun bridge => ⟨[], .nil bridge⟩
  exact ⟨after, ⟨_, run⟩, rfl, read,
    daemon_metrics_never_fall (here _) (here _) (here _) ⟨_, run⟩ (here _)
      (here _)⟩

end Bridge

end YieldDaemon
