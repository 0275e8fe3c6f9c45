import Mathlib.Tactic

namespace ReentrantCalls

/-!
# Contracts whose callees reenter

A contract answers a message with a program that may call other contracts.
What these do is arbitrary: before they answer they can send the contract any
messages, down to any depth.  A call that reverts leaves nothing behind, so a
run is a call that returns.

A guarantee is a reflexive and transitive relation between the states before
and after a call.  If every program keeps it while the contracts it calls keep
it, then every call does, whatever is called and however deep.
-/

variable {State Message Query Answer : Type}

/-- The code that runs for one message, with its calls to other contracts. -/
inductive Program (State Query Answer : Type) where
  | revert
  | done (state : State)
  | external
      (query : Query)
      (state : State)
      (resume : Answer → State → Program State Query Answer)

namespace Program

/-- `require(condition)` before the rest of the code. -/
def require
    (condition : Prop)
    [Decidable condition]
    (next : Program State Query Answer) : Program State Query Answer :=
  if condition then next else .revert

/--
The program makes only calls that satisfy `issue` and ends in states that
satisfy `post`, if the contracts it calls change the state along `rely`.
-/
def Meets
    (rely : State → State → Prop)
    (issue : Query → State → Prop)
    (post : State → Prop) : Program State Query Answer → Prop
  | .revert => True
  | .done state => post state
  | .external query state resume =>
    issue query state ∧
      ∀ answer after, rely state after →
        (resume answer after).Meets rely issue post

variable
  {rely : State → State → Prop}
  {issue : Query → State → Prop}
  {post : State → Prop}

@[simp] theorem meets_revert :
    (revert : Program State Query Answer).Meets rely issue post ↔ True :=
  Iff.rfl

@[simp] theorem meets_done {state : State} :
    (done state : Program State Query Answer).Meets rely issue post ↔
      post state :=
  Iff.rfl

@[simp] theorem meets_external
    {query : Query}
    {state : State}
    {resume : Answer → State → Program State Query Answer} :
    (external query state resume).Meets rely issue post ↔
      issue query state ∧
        ∀ answer after, rely state after →
          (resume answer after).Meets rely issue post :=
  Iff.rfl

@[simp] theorem meets_require
    {condition : Prop}
    [Decidable condition]
    {next : Program State Query Answer} :
    (require condition next).Meets rely issue post ↔
      (condition → next.Meets rely issue post) := by
  by_cases holds : condition
  · simp [require, holds]
  · simp [require, holds]

/-- What holds of all calls and states needs no look at the code. -/
theorem meets_of_forall
    (issues : ∀ query state, issue query state)
    (posts : ∀ state, post state)
    (program : Program State Query Answer) :
    program.Meets rely issue post := by
  induction program with
  | revert =>
      trivial
  | done state =>
      exact posts state
  | external query state resume inductionHypothesis =>
      exact ⟨issues query state,
        fun answer after _ => inductionHypothesis answer after⟩

/-- A weaker condition on the calls and a weaker one on the end. -/
theorem Meets.mono
    {program : Program State Query Answer}
    {issue' : Query → State → Prop}
    {post' : State → Prop}
    (meets : program.Meets rely issue post)
    (issues : ∀ query state, issue query state → issue' query state)
    (posts : ∀ state, post state → post' state) :
    program.Meets rely issue' post' := by
  induction program with
  | revert =>
      trivial
  | done state =>
      exact posts state meets
  | external query state resume inductionHypothesis =>
      exact ⟨issues query state meets.1,
        fun answer after relied =>
          inductionHypothesis answer after (meets.2 answer after relied)⟩

end Program

/-- What a run records: the calls it enters and the calls it makes. -/
inductive Entry (State Message Query : Type) where
  /-- A message is received; the calls in progress, the newest first. -/
  | entered (calls : List Message)
  /-- The newest call in progress calls another contract in this state. -/
  | made (calls : List Message) (query : Query) (state : State)

/-- The effect and the record of a contract's surroundings. -/
abbrev Effect (State Message Query : Type) :=
  State → List (Entry State Message Query) → State → Prop

/-- A run of a program among surroundings with the given effect. -/
inductive Runs
    (outside : Effect State Message Query)
    (calls : List Message) :
    Program State Query Answer →
      List (Entry State Message Query) → State → Prop where
  | done (state : State) :
      Runs outside calls (.done state) [] state
  | external
      {query : Query}
      {state middle final : State}
      {resume : Answer → State → Program State Query Answer}
      {inner rest : List (Entry State Message Query)}
      (answer : Answer)
      (between : outside state inner middle)
      (later : Runs outside calls (resume answer middle) rest final) :
      Runs outside calls (.external query state resume)
        (.made calls query state :: (inner ++ rest)) final

/-- Any number of calls and of changes from elsewhere. -/
inductive Outside
    (call : Message → Effect State Message Query)
    (environment : State → State → Prop) : Effect State Message Query where
  | stop (state : State) :
      Outside call environment state [] state
  | call
      {message : Message}
      {state middle final : State}
      {record later : List (Entry State Message Query)}
      (first : call message state record middle)
      (rest : Outside call environment middle later final) :
      Outside call environment state (record ++ later) final
  | environment
      {state middle final : State}
      {later : List (Entry State Message Query)}
      (first : environment state middle)
      (rest : Outside call environment middle later final) :
      Outside call environment state later final

/-- The code of a contract, and what can change its state without it. -/
structure Contract (State Message Query Answer : Type) where
  code : Message → State → Program State Query Answer
  environment : State → State → Prop

namespace Contract

/-- A call that returns, with at most `depth` calls of the contract nested. -/
def Call (contract : Contract State Message Query Answer) :
    Nat → List Message → Message → Effect State Message Query
  | 0, _, _ => fun _ _ _ => False
  | depth + 1, calls, message => fun before record after =>
    ∃ inner,
      record = .entered (message :: calls) :: inner ∧
        Runs
          (Outside (contract.Call depth (message :: calls))
            contract.environment)
          (message :: calls) (contract.code message before) inner after

/-- What happens while the given calls are in progress. -/
abbrev Reaches
    (contract : Contract State Message Query Answer)
    (depth : Nat)
    (calls : List Message) : Effect State Message Query :=
  Outside (contract.Call depth calls) contract.environment

end Contract

section Programs

variable
  {outside : Effect State Message Query}
  {calls : List Message}
  {program : Program State Query Answer}
  {record : List (Entry State Message Query)}
  {final : State}
  {rely : State → State → Prop}
  {issue : Query → State → Prop}
  {post : State → Prop}

/-- A program that reverts has no run. -/
theorem Runs.not_revert
    (run : Runs outside calls (.revert : Program State Query Answer) record
      final) :
    False := by
  cases run

/-- A run gets past a requirement that holds only. -/
theorem Runs.of_require
    {condition : Prop}
    [Decidable condition]
    (run : Runs outside calls (.require condition program) record final) :
    condition ∧ Runs outside calls program record final := by
  unfold Program.require at run
  split at run
  · next holds => exact ⟨holds, run⟩
  · exact absurd run Runs.not_revert

/-- A run of a call records it and goes on with some answer. -/
theorem Runs.of_external
    {query : Query}
    {state : State}
    {resume : Answer → State → Program State Query Answer}
    (run : Runs outside calls (.external query state resume) record final) :
    .made calls query state ∈ record ∧
      ∃ answer middle rest,
        Runs outside calls (resume answer middle) rest final ∧
          rest ⊆ record := by
  cases run with
  | @external _ _ middle _ _ inner rest answer between later =>
      refine ⟨List.mem_cons_self, answer, middle, rest, later, ?_⟩
      exact List.subset_cons_of_subset _ (List.subset_append_right inner rest)

/-- A program enters no call itself, its callees do. -/
theorem Runs.exists_between
    {entered : List Message}
    (run : Runs outside calls program record final)
    (member : .entered entered ∈ record) :
    ∃ before inner after,
      outside before inner after ∧ .entered entered ∈ inner ∧
        inner ⊆ record := by
  induction run with
  | done state =>
      exact absurd member List.not_mem_nil
  | @external query state middle final resume inner rest answer between later
      inductionHypothesis =>
      have inBoth : .entered entered ∈ inner ++ rest :=
        (List.mem_cons.mp member).resolve_left nofun
      rcases List.mem_append.mp inBoth with inInner | inRest
      · exact ⟨state, inner, middle, between, inInner,
          List.subset_cons_of_subset _ (List.subset_append_left inner rest)⟩
      · obtain ⟨before, earlier, after, happened, inEarlier, included⟩ :=
          inductionHypothesis inRest
        refine ⟨before, earlier, after, happened, inEarlier, ?_⟩
        apply List.subset_cons_of_subset
        exact List.subset_append_of_subset_right inner included

/-- A run ends as the program promises. -/
theorem Runs.post_of_meets
    (run : Runs outside calls program record final)
    (relies :
      ∀ {before inner after}, outside before inner after → rely before after)
    (meets : program.Meets rely issue post) :
    post final := by
  induction run with
  | done state =>
      exact meets
  | external answer between _ inductionHypothesis =>
      exact inductionHypothesis (meets.2 _ _ (relies between))

/--
Whatever holds of the calls that the program makes, and of the records of what
happens during them, holds of the whole record of a run.
-/
theorem Runs.entries_of_meets
    {assumed good : Entry State Message Query → Prop}
    (run : Runs outside calls program record final)
    (relies :
      ∀ {before inner after}, outside before inner after → rely before after)
    (meets : program.Meets rely issue post)
    (own : ∀ {query state}, issue query state → good (.made calls query state))
    (nested :
      ∀ {query state inner after},
        issue query state → outside state inner after →
        (∀ entry ∈ inner, assumed entry) → ∀ entry ∈ inner, good entry)
    (allAssumed : ∀ entry ∈ record, assumed entry) :
    ∀ entry ∈ record, good entry := by
  induction run with
  | done state =>
      exact List.forall_mem_nil good
  | external answer between _ inductionHypothesis =>
      rw [List.forall_mem_cons, List.forall_mem_append] at allAssumed ⊢
      obtain ⟨-, innerAssumed, restAssumed⟩ := allAssumed
      exact ⟨own meets.1, nested meets.1 between innerAssumed,
        inductionHypothesis (meets.2 _ _ (relies between)) restAssumed⟩

end Programs

section Surroundings

variable
  {call : Message → Effect State Message Query}
  {environment : State → State → Prop}
  {before after : State}
  {record : List (Entry State Message Query)}

/-- A reflexive and transitive relation that calls and changes keep. -/
theorem Outside.guarantee_of_calls
    {guarantee : State → State → Prop}
    (refl : ∀ state, guarantee state state)
    (trans :
      ∀ {first middle last},
        guarantee first middle → guarantee middle last →
        guarantee first last)
    (changes :
      ∀ {before after}, environment before after → guarantee before after)
    (calls :
      ∀ {message before record after},
        call message before record after → guarantee before after)
    (happened : Outside call environment before record after) :
    guarantee before after := by
  induction happened with
  | stop state =>
      exact refl state
  | call first _ inductionHypothesis =>
      exact trans (calls first) inductionHypothesis
  | environment first _ inductionHypothesis =>
      exact trans (changes first) inductionHypothesis

/-- The record is made up of the records of the calls. -/
theorem Outside.entries_of_calls
    {keeps : State → Prop}
    {assumed good : Entry State Message Query → Prop}
    (stable :
      ∀ {message before record after},
        keeps before → call message before record after → keeps after)
    (changes :
      ∀ {before after}, keeps before → environment before after → keeps after)
    (calls :
      ∀ {message before record after},
        keeps before → call message before record after →
        (∀ entry ∈ record, assumed entry) → ∀ entry ∈ record, good entry)
    (happened : Outside call environment before record after)
    (start : keeps before)
    (allAssumed : ∀ entry ∈ record, assumed entry) :
    ∀ entry ∈ record, good entry := by
  induction happened with
  | stop state =>
      exact List.forall_mem_nil good
  | call first _ inductionHypothesis =>
      rw [List.forall_mem_append] at allAssumed ⊢
      exact ⟨calls start first allAssumed.1,
        inductionHypothesis (stable start first) allAssumed.2⟩
  | environment first _ inductionHypothesis =>
      exact inductionHypothesis (changes start first) allAssumed

/-- An entry of the record belongs to one of the calls. -/
theorem Outside.exists_call
    {entry : Entry State Message Query}
    (happened : Outside call environment before record after)
    (member : entry ∈ record) :
    ∃ message start inner stop,
      call message start inner stop ∧ entry ∈ inner ∧ inner ⊆ record := by
  induction happened with
  | stop state =>
      exact absurd member List.not_mem_nil
  | @call message start middle final inner later first rest
      inductionHypothesis =>
      rcases List.mem_append.mp member with inFirst | inRest
      · exact ⟨message, start, inner, middle, first, inFirst,
          List.subset_append_left inner later⟩
      · obtain ⟨message, start, inner, stop, called, inInner, included⟩ :=
          inductionHypothesis inRest
        exact ⟨message, start, inner, stop, called, inInner,
          List.Subset.trans included (List.subset_append_right _ later)⟩
  | environment first _ inductionHypothesis =>
      exact inductionHypothesis member

end Surroundings

namespace Contract

variable {contract : Contract State Message Query Answer}

/-- Every program keeps the relation while its callees do. -/
structure Guarantees
    (contract : Contract State Message Query Answer)
    (guarantee : State → State → Prop) : Prop where
  refl : ∀ state, guarantee state state
  trans :
    ∀ {first middle last},
      guarantee first middle → guarantee middle last → guarantee first last
  environment :
    ∀ {before after},
      contract.environment before after → guarantee before after
  code :
    ∀ message before,
      (contract.code message before).Meets guarantee (fun _ _ => True)
        (guarantee before)

section Guaranteed

variable
  {guarantee : State → State → Prop}
  {depth : Nat}
  {calls : List Message}
  {message : Message}
  {before after : State}
  {record : List (Entry State Message Query)}

/-- A call keeps the guarantee, however deep the calls inside of it are. -/
theorem Guarantees.call
    (guarantees : contract.Guarantees guarantee)
    (called : contract.Call depth calls message before record after) :
    guarantee before after := by
  induction depth generalizing calls message before record after with
  | zero =>
      exact absurd called not_false
  | succ depth inductionHypothesis =>
      obtain ⟨inner, -, run⟩ := called
      refine run.post_of_meets ?_ (guarantees.code message before)
      intro state inner middle between
      exact between.guarantee_of_calls guarantees.refl guarantees.trans
        guarantees.environment inductionHypothesis

/-- So does everything that happens while calls are in progress. -/
theorem Guarantees.reaches
    (guarantees : contract.Guarantees guarantee)
    (reached : contract.Reaches depth calls before record after) :
    guarantee before after :=
  reached.guarantee_of_calls guarantees.refl guarantees.trans
    guarantees.environment guarantees.call

/--
What a program does of its own is good when the entry of its call is assumed;
then a whole record is good when all of its entries are assumed.  The states
in which a call can be entered are described by `keeps`.
-/
theorem Guarantees.call_entries
    {keeps : List Message → State → Prop}
    {assumed good : Entry State Message Query → Prop}
    (guarantees : contract.Guarantees guarantee)
    (stable :
      ∀ {calls before after},
        keeps calls before → guarantee before after → keeps calls after)
    (entered : ∀ calls, good (.entered calls))
    (code :
      ∀ {calls message before},
        keeps calls before → assumed (.entered (message :: calls)) →
        (contract.code message before).Meets guarantee
          (fun query state =>
            keeps (message :: calls) state ∧
              good (.made (message :: calls) query state))
          (fun _ => True))
    (start : keeps calls before)
    (called : contract.Call depth calls message before record after)
    (allAssumed : ∀ entry ∈ record, assumed entry) :
    ∀ entry ∈ record, good entry := by
  induction depth generalizing calls message before record after with
  | zero =>
      exact absurd called not_false
  | succ depth inductionHypothesis =>
      obtain ⟨inner, rfl, run⟩ := called
      rw [List.forall_mem_cons] at allAssumed ⊢
      refine ⟨entered _, run.entries_of_meets guarantees.reaches
        (code start allAssumed.1) And.right ?_ allAssumed.2⟩
      intro query state inner after issued between
      exact between.entries_of_calls
        (fun kept called => stable kept (guarantees.call called))
        (fun kept changed => stable kept (guarantees.environment changed))
        inductionHypothesis issued.1

/-- The same for everything that happens while calls are in progress. -/
theorem Guarantees.reaches_entries
    {keeps : List Message → State → Prop}
    {assumed good : Entry State Message Query → Prop}
    (guarantees : contract.Guarantees guarantee)
    (stable :
      ∀ {calls before after},
        keeps calls before → guarantee before after → keeps calls after)
    (entered : ∀ calls, good (.entered calls))
    (code :
      ∀ {calls message before},
        keeps calls before → assumed (.entered (message :: calls)) →
        (contract.code message before).Meets guarantee
          (fun query state =>
            keeps (message :: calls) state ∧
              good (.made (message :: calls) query state))
          (fun _ => True))
    (start : keeps calls before)
    (reached : contract.Reaches depth calls before record after)
    (allAssumed : ∀ entry ∈ record, assumed entry) :
    ∀ entry ∈ record, good entry :=
  reached.entries_of_calls
    (fun kept called => stable kept (guarantees.call called))
    (fun kept changed => stable kept (guarantees.environment changed))
    (guarantees.call_entries stable entered code) start allAssumed

end Guaranteed

/-- Every call that a record enters has run, within that record. -/
theorem call_of_entered
    {depth : Nat}
    {calls entered : List Message}
    {message : Message}
    {before after : State}
    {record : List (Entry State Message Query)}
    (called : contract.Call depth calls message before record after)
    (member : .entered entered ∈ record) :
    ∃ depth calls message before inner after,
      entered = message :: calls ∧
        Runs (contract.Reaches depth (message :: calls)) (message :: calls)
          (contract.code message before) inner after ∧
        inner ⊆ record := by
  induction depth generalizing calls message before record after with
  | zero =>
      exact absurd called not_false
  | succ depth inductionHypothesis =>
      obtain ⟨inner, rfl, run⟩ := called
      rcases List.mem_cons.mp member with isThis | inInner
      · obtain rfl := (Entry.entered.inj isThis)
        exact ⟨depth, calls, message, before, inner, after, rfl, run,
          List.subset_cons_self _ inner⟩
      · obtain ⟨_, between, _, happened, inBetween, betweenIncluded⟩ :=
          run.exists_between inInner
        obtain ⟨_, _, nested, _, nestedCall, inNested, nestedIncluded⟩ :=
          happened.exists_call inBetween
        obtain ⟨depth', calls', message', before', inner', after', shape,
          nestedRun, included⟩ := inductionHypothesis nestedCall inNested
        refine ⟨depth', calls', message', before', inner', after', shape,
          nestedRun, ?_⟩
        apply List.subset_cons_of_subset
        exact List.Subset.trans included
          (List.Subset.trans nestedIncluded betweenIncluded)

/-- The same for everything that happens while calls are in progress. -/
theorem reaches_of_entered
    {depth : Nat}
    {calls entered : List Message}
    {before after : State}
    {record : List (Entry State Message Query)}
    (reached : contract.Reaches depth calls before record after)
    (member : .entered entered ∈ record) :
    ∃ depth calls message before inner after,
      entered = message :: calls ∧
        Runs (contract.Reaches depth (message :: calls)) (message :: calls)
          (contract.code message before) inner after ∧
        inner ⊆ record := by
  obtain ⟨_, _, nested, _, called, inNested, nestedIncluded⟩ :=
    reached.exists_call member
  obtain ⟨depth', calls', message', before', inner', after', shape, run,
    included⟩ := call_of_entered called inNested
  exact ⟨depth', calls', message', before', inner', after', shape, run,
    List.Subset.trans included nestedIncluded⟩

end Contract

end ReentrantCalls
