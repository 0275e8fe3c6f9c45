import YieldDaemon.AmmParser
import YieldDaemon.JsonTree
import YieldDaemon.ProgramFilter

namespace YieldDaemon

open CheckedArithmetic

/-!
# Mempool feed

A subscriber reads log notifications, collects the programs that the log lines
say were invoked, and keeps those that pass a Bloom filter of the monitored
programs.  A notification with a signature and some such program becomes a
transaction without accounts and without data.  Parsing the JSON text is left
to a parameter, and so are the hash and the size of the filter.
-/

/-- A mempool transaction with all of its fields. -/
structure ObservedTransaction extends MempoolTransaction where
  signature : String
  programIds : List String
  slot : Nat
  receivedAtNs : Nat

/-- The UTF-8 bytes of a text. -/
def textBytes (text : String) : List UInt8 :=
  text.toUTF8.data.toList

/--
What the host fixes of the filter: the hash of the standard library, and the
number of bits and hashes that floats give for a false positive rate of 0.001.
-/
structure FilterHost where
  hash : List UInt8 → UInt8 → UInt64
  size : Nat → Nat × UInt8
  positive : ∀ expectedItems, 10 ≤ expectedItems → 1 ≤ (size expectedItems).1

namespace ProgramFilter

def new (host : FilterHost) (expectedItems : Nat) : ProgramFilter where
  bits := List.replicate (((host.size expectedItems).1 + 63) / 64) 0
  numBits := (host.size expectedItems).1
  numHashes := (host.size expectedItems).2

/-- The filter that the subscriber builds from the monitored programs. -/
def ofPrograms
    (profile : Profile)
    (host : FilterHost)
    (programs : List String) : Checked ProgramFilter :=
  (programs.map textBytes).foldlM (insert profile host.hash)
    (new host (max programs.length 10))

theorem new_sized
    (host : FilterHost)
    {expectedItems : Nat}
    (enough : 10 ≤ expectedItems) :
    (new host expectedItems).Sized where
  positive := host.positive expectedItems enough
  words := List.length_replicate

/-- The filter of the programs answers, and accepts each of them. -/
theorem ofPrograms_returns
    (profile : Profile)
    (host : FilterHost)
    (programs : List String) :
    ∃ (filter : ProgramFilter) (accepts : String → Bool),
      ofPrograms profile host programs = .ok filter ∧
        (∀ program, filter.contains profile host.hash (textBytes program) =
          .ok (accepts program)) ∧
        ∀ program ∈ programs, accepts program = true := by
  have sized := new_sized host (Nat.le_max_right programs.length 10)
  have start :
      (new host (max programs.length 10)).Marks
        (new host (max programs.length 10)) _ :=
    ⟨sized, rfl, rfl, rfl⟩
  obtain ⟨filter, inserted, marks⟩ :=
    @Marks.foldlM_insert profile host.hash _ _ _ start
      (programs.map textBytes)
  choose accepts answered isMarked using
    fun program : String =>
      @Marks.contains profile host.hash _ _ _ marks (textBytes program)
  refine ⟨filter, accepts, inserted, answered, fun program member => ?_⟩
  exact (isMarked program).mpr
    (BloomFilter.mayContain_foldl_add (List.mem_map_of_mem member))

end ProgramFilter

/-- The characters that `split_whitespace` splits at. -/
def isWhitespace (c : Char) : Bool :=
  let code := c.toNat
  (9 ≤ code && code ≤ 13) || code = 32 || code = 0x85 || code = 0xA0 ||
    code = 0x1680 || (0x2000 ≤ code && code ≤ 0x200A) || code = 0x2028 ||
    code = 0x2029 || code = 0x202F || code = 0x205F || code = 0x3000

/-- `split_whitespace().next()` -/
def firstWord (text : List Char) : Option (List Char) :=
  match text.dropWhile isWhitespace with
  | [] => none
  | rest => some (rest.takeWhile (fun c => !isWhitespace c))

/-- The program that a log line says was invoked. -/
def invokedProgram (log : String) : Option String :=
  let text := log.toList
  if "Program ".toList <+: text ∧ " invoke".toList <:+: text then
    (firstWord (text.drop "Program ".toList.length)).map String.ofList
  else
    none

/-- The invoked programs of some log lines that the filter accepts. -/
def acceptedPrograms
    (profile : Profile)
    (host : FilterHost)
    (filter : ProgramFilter) : List String → Checked (List String)
  | [] => return []
  | log :: logs => do
    match invokedProgram log with
    | none => acceptedPrograms profile host filter logs
    | some program => do
      let accepted ← filter.contains profile host.hash (textBytes program)
      let later ← acceptedPrograms profile host filter logs
      return if accepted then program :: later else later

/-- The value of a log notification. -/
def notifiedValue (json : JsonTree) : Option JsonTree := do
  let params ← json.get "params"
  let result ← params.get "result"
  result.get "value"

def notifiedSignature (value : JsonTree) : String :=
  ((value.get "signature").bind JsonTree.asStr).getD ""

def notifiedLogs (value : JsonTree) : List String :=
  (((value.get "logs").bind JsonTree.asArray).map
    (List.filterMap JsonTree.asStr)).getD []

/-- The transaction that a notification is forwarded as, if it is. -/
def readNotification
    (profile : Profile)
    (host : FilterHost)
    (filter : ProgramFilter)
    (nowNs : Nat)
    (json : JsonTree) : Checked (Option ObservedTransaction) :=
  match notifiedValue json with
  | none => return none
  | some value => do
    let signature := notifiedSignature value
    let programIds ←
      acceptedPrograms profile host filter (notifiedLogs value)
    if programIds ≠ [] ∧ signature ≠ "" then
      return some {
        signature := signature
        programIds := programIds
        accounts := [] -- Populated by getTransaction if needed
        data := []
        slot := ((value.get "slot").bind JsonTree.asU64).getD 0
        receivedAtNs := nowNs % 2 ^ 64 }
    else
      return none

variable
  {profile : Profile}
  {host : FilterHost}
  {filter : ProgramFilter}
  {accepts : String → Bool}

/-- The accepted programs are a filtering of the invoked ones, in order. -/
theorem acceptedPrograms_eq
    (answers :
      ∀ program, filter.contains profile host.hash (textBytes program) =
        .ok (accepts program))
    (logs : List String) :
    acceptedPrograms profile host filter logs =
      .ok ((logs.filterMap invokedProgram).filter accepts) := by
  induction logs with
  | nil =>
      rfl
  | cons log logs inductionHypothesis =>
      rw [acceptedPrograms, List.filterMap_cons]
      cases invokedProgram log with
      | none =>
          exact inductionHypothesis
      | some program =>
          simp only [answers program, Checked.ok_bind, inductionHypothesis,
            List.filter_cons]
          rfl

/-- What a notification is forwarded as, by what the filter accepts. -/
theorem readNotification_eq
    (answers :
      ∀ program, filter.contains profile host.hash (textBytes program) =
        .ok (accepts program))
    (nowNs : Nat)
    (json : JsonTree) :
    readNotification profile host filter nowNs json =
      .ok ((notifiedValue json).bind fun value =>
        let programIds :=
          ((notifiedLogs value).filterMap invokedProgram).filter accepts
        if programIds ≠ [] ∧ notifiedSignature value ≠ "" then
          some {
            signature := notifiedSignature value
            programIds := programIds
            accounts := []
            data := []
            slot := ((value.get "slot").bind JsonTree.asU64).getD 0
            receivedAtNs := nowNs % 2 ^ 64 }
        else
          none) := by
  unfold readNotification
  cases notifiedValue json with
  | none =>
      rfl
  | some value =>
      simp only [acceptedPrograms_eq answers, Checked.ok_bind,
        Option.bind_some]
      split <;> rfl

/-- A forwarded transaction has neither accounts nor data. -/
theorem readNotification_empty
    (answers :
      ∀ program, filter.contains profile host.hash (textBytes program) =
        .ok (accepts program))
    {nowNs : Nat}
    {json : JsonTree}
    {tx : ObservedTransaction}
    (read : readNotification profile host filter nowNs json = .ok (some tx)) :
    tx.accounts = [] ∧ tx.data = [] := by
  rw [readNotification_eq answers] at read
  obtain ⟨value, -, forwarded⟩ :=
    Option.bind_eq_some_iff.mp (Except.ok.inj read)
  dsimp only at forwarded
  split at forwarded
  · obtain rfl := Option.some.inj forwarded
    exact ⟨rfl, rfl⟩
  · cases forwarded

/-- A text without whitespace, such as a base58 address. -/
def IsWord (text : String) : Prop :=
  text.toList ≠ [] ∧ ∀ c ∈ text.toList, isWhitespace c = false

/-- The first word of a text that starts with a word. -/
theorem firstWord_append
    {word : String}
    (isWord : IsWord word)
    (rest : List Char) :
    firstWord (word.toList ++ ' ' :: rest) = some word.toList := by
  obtain ⟨nonempty, solid⟩ := isWord
  obtain ⟨first, others, shape⟩ := List.exists_cons_of_ne_nil nonempty
  have firstSolid : isWhitespace first = false :=
    solid first (by rw [shape]; exact List.mem_cons_self)
  have kept :
      (word.toList ++ ' ' :: rest).dropWhile isWhitespace =
        word.toList ++ ' ' :: rest := by
    rw [shape, List.cons_append, List.dropWhile_cons_of_neg]
    rw [firstSolid]
    exact Bool.false_ne_true
  have taken :
      (word.toList ++ ' ' :: rest).takeWhile (fun c => !isWhitespace c) =
        word.toList := by
    rw [List.takeWhile_append_of_pos]
    · rw [List.takeWhile_cons_of_neg (by decide), List.append_nil]
    · intro c member
      rw [solid c member]
      rfl
  unfold firstWord
  rw [kept]
  rw [shape] at taken ⊢
  exact congrArg some taken

/-- The log line of an invocation names the program. -/
theorem invokedProgram_of_line
    {program log : String}
    {rest : List Char}
    (isWord : IsWord program)
    (line :
      log.toList =
        "Program ".toList ++ (program.toList ++ " invoke".toList ++ rest)) :
    invokedProgram log = some program := by
  have starts : "Program ".toList <+: log.toList :=
    ⟨_, line.symm⟩
  have contained : " invoke".toList <:+: log.toList :=
    ⟨"Program ".toList ++ program.toList, rest, by
      rw [line, List.append_assoc, List.append_assoc, List.append_assoc]⟩
  unfold invokedProgram
  rw [if_pos ⟨starts, contained⟩, line, List.drop_left, List.append_assoc]
  have word :
      firstWord (program.toList ++ (" invoke".toList ++ rest)) =
        some program.toList :=
    firstWord_append isWord ("invoke".toList ++ rest)
  rw [word, Option.map_some, String.ofList_toList]

/-- The notification has a signature and says that the program was invoked. -/
structure Mentions (json : JsonTree) (value : JsonTree) (program : String) :
    Prop where
  isValue : notifiedValue json = some value
  signed : notifiedSignature value ≠ ""
  isWord : IsWord program
  invoked :
    ∃ log ∈ notifiedLogs value, ∃ rest,
      log.toList =
        "Program ".toList ++ (program.toList ++ " invoke".toList ++ rest)

/-- What a transaction says of the notification it was made from. -/
structure Forwards (value : JsonTree) (tx : ObservedTransaction) : Prop where
  signature : tx.signature = notifiedSignature value
  signed : tx.signature ≠ ""
  some : tx.programIds ≠ []
  inOrder :
    tx.programIds.Sublist ((notifiedLogs value).filterMap invokedProgram)

/--
Whatever a false positive lets through, a notification that mentions a monitored
program is forwarded with every invocation of the program, and what is forwarded
names invoked programs only, in their order.
-/
theorem monitored_programs_are_forwarded
    (profile : Profile)
    (host : FilterHost)
    (programs : List String) :
    ∃ filter,
      ProgramFilter.ofPrograms profile host programs = .ok filter ∧
        ∀ nowNs json, ∃ read,
          readNotification profile host filter nowNs json = .ok read ∧
            (∀ tx, read = some tx →
              ∃ value, notifiedValue json = some value ∧
                Forwards value tx) ∧
            ∀ program ∈ programs, ∀ value, Mentions json value program →
              ∃ tx, read = some tx ∧
                tx.programIds.count program =
                  ((notifiedLogs value).filterMap invokedProgram).count
                    program := by
  obtain ⟨filter, accepts, built, answers, acceptsPrograms⟩ :=
    ProgramFilter.ofPrograms_returns profile host programs
  refine ⟨filter, built, fun nowNs json =>
    ⟨_, readNotification_eq answers nowNs json, ?_, ?_⟩⟩
  · intro tx isTx
    obtain ⟨value, isValue, forwarded⟩ := Option.bind_eq_some_iff.mp isTx
    dsimp only at forwarded
    split at forwarded
    next forwards =>
      obtain rfl := Option.some.inj forwarded
      exact ⟨value, isValue, rfl, forwards.2, forwards.1,
        List.filter_sublist⟩
    next =>
      cases forwarded
  · intro program member value mentions
    obtain ⟨log, logMember, rest, line⟩ := mentions.invoked
    have isInvoked :
        program ∈ (notifiedLogs value).filterMap invokedProgram :=
      List.mem_filterMap.mpr
        ⟨log, logMember, invokedProgram_of_line mentions.isWord line⟩
    have isAccepted := acceptsPrograms program member
    have someProgram :
        ((notifiedLogs value).filterMap invokedProgram).filter accepts ≠ [] :=
      List.ne_nil_of_mem (List.mem_filter.mpr ⟨isInvoked, isAccepted⟩)
    rw [mentions.isValue, Option.bind_some]
    dsimp only
    rw [if_pos ⟨someProgram, mentions.signed⟩]
    exact ⟨_, rfl, List.count_filter isAccepted⟩

end YieldDaemon
