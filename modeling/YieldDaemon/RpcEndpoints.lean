import Mathlib.Data.List.GetD
import YieldDaemon.CheckedArithmetic
import YieldDaemon.LabelledRun
import YieldDaemon.RunningExtremes

namespace YieldDaemon

open CheckedArithmetic LabelledRun RunningExtremes

/-!
# Endpoints of the RPC client

A call goes to the endpoint with the lowest average latency, and its answer is
added to that average.  An average of 0 stands for an endpoint without answers,
which is also the lowest one.  Calls may overlap: each of them selects its
endpoint and waits, and the answers come in any order.
-/

/-- The fields that select an endpoint and record a latency. -/
structure RpcClient where
  endpoints : List String
  requestId : Nat
  endpointIdx : Nat
  endpointLatencies : List Nat
  deriving Repr, DecidableEq

/-- The error that a server returns. -/
structure JsonRpcError where
  code : Int
  message : String
  deriving Repr, DecidableEq

/-- The parts of an answer that a call returns. -/
structure JsonRpcResponse (Value : Type) where
  result : Option Value
  error : Option JsonRpcError
  deriving Repr, DecidableEq

/-- What comes back for a request, and after how many nanoseconds. -/
inductive Reply (Value : Type) where
  | failed (error : String)
  | answered (nanos : Nat) (response : JsonRpcResponse Value)
  deriving Repr, DecidableEq

namespace RpcClient

/-- A client without any latency. -/
def new (endpoints : List String) : RpcClient :=
  { endpoints := endpoints
    requestId := 1
    endpointIdx := 0
    endpointLatencies := List.replicate (max endpoints.length 1) 0 }

/-- The average latency of an endpoint, 0 for none. -/
def latency (client : RpcClient) (i : Nat) : Nat :=
  client.endpointLatencies.getD i 0

/-- Take an endpoint if its latency is below the best one so far. -/
def takeLower (best : Best Nat) (entry : Nat × Nat) : Best Nat :=
  if entry.1 < best.value then ⟨entry.1, entry.2⟩ else best

/-- Select the lowest-latency endpoint (or round-robin if no data). -/
def selectEndpoint (client : RpcClient) : Checked (String × RpcClient) :=
  if client.endpoints.isEmpty then
    return ("https://api.mainnet-beta.solana.com", client)
  else
    let best :=
      client.endpointLatencies.zipIdx.foldl takeLower ⟨2 ^ 64 - 1, 0⟩
    -- One endpoint without a latency is enough to get here.
    if best.value = 0 then do
      let position ← rem client.endpointIdx client.endpoints.length
      let endpoint ← index client.endpoints position
      return (endpoint,
        { client with endpointIdx := fetchAdd client.endpointIdx 1 })
    else do
      let endpoint ← index client.endpoints best.idx
      return (endpoint, client)

/-- The moving average after a further latency. -/
def average (profile : Profile) (prev latencyNs : Nat) : Checked Nat :=
  if prev = 0 then
    return latencyNs
  else do
    let weighted ← mul profile 64 prev 7
    let sum ← add profile 64 weighted latencyNs
    return sum / 8

/-- Update latency EMA of the endpoint that answered. -/
def record
    (profile : Profile)
    (client : RpcClient)
    (endpoint : String)
    (nanos : Nat) :
    Checked RpcClient :=
  match client.endpoints.findIdx? (· = endpoint) with
  | none => return client
  | some idx => do
    let prev ← index client.endpointLatencies idx
    let ema ← average profile prev (nanos % 2 ^ 64)
    let latencies ← store client.endpointLatencies idx ema
    return { client with endpointLatencies := latencies }

/-- What a call returns for an answer. -/
def respond {Value : Type} (response : JsonRpcResponse Value) :
    Except String Value :=
  match response.error, response.result with
  | some error, _ =>
    .error ("RPC error " ++ toString error.code ++ ": " ++ error.message)
  | none, some value => .ok value
  | none, none => .error "Empty RPC result"

/-- The first part of a call, up to its request. -/
def send (client : RpcClient) : Checked (String × RpcClient) :=
  { client with requestId := fetchAdd client.requestId 1 }.selectEndpoint

/-- The second part of a call, from the reply on. -/
def receive {Value : Type}
    (profile : Profile)
    (client : RpcClient)
    (endpoint : String)
    (reply : Reply Value) :
    Checked (Except String Value × RpcClient) :=
  match reply with
  | .failed error => return (.error error, client)
  | .answered nanos response => do
    let client ← client.record profile endpoint nanos
    return (respond response, client)

/-- Send a JSON-RPC request with latency tracking. -/
def call {Value : Type}
    (profile : Profile)
    (client : RpcClient)
    (reply : Reply Value) :
    Checked (Except String Value × RpcClient) := do
  let (endpoint, client) ← client.send
  client.receive profile endpoint reply

end RpcClient

/-- The client, the requests that wait, and the endpoints that answered. -/
structure RpcCalls where
  client : RpcClient
  waiting : List String
  measured : List String
  deriving Repr, DecidableEq

/-- A call sends its request, or one that waits gets its reply. -/
inductive CallEvent (Value : Type) where
  | send
  | receive (position : Nat) (reply : Reply Value)

/-- The endpoints that answered, after a further reply. -/
def Reply.measure {Value : Type}
    (reply : Reply Value)
    (endpoint : String)
    (measured : List String) :
    List String :=
  match reply with
  | .failed _ => measured
  | .answered _ _ => endpoint :: measured

namespace RpcCalls

/-- No calls yet. -/
def start (endpoints : List String) : RpcCalls :=
  ⟨.new endpoints, [], []⟩

/-- What an event does to the calls in flight. -/
inductive Step {Value : Type} (profile : Profile) :
    RpcCalls → CallEvent Value → RpcCalls → Prop where
  | send
      {calls : RpcCalls}
      {endpoint : String}
      {client : RpcClient}
      (sent : calls.client.send = .ok (endpoint, client)) :
      Step profile calls .send
        ⟨client, calls.waiting ++ [endpoint], calls.measured⟩
  | receive
      {calls : RpcCalls}
      {position : Nat}
      {reply : Reply Value}
      {endpoint : String}
      {result : Except String Value}
      {client : RpcClient}
      (waits : calls.waiting[position]? = some endpoint)
      (received :
        calls.client.receive profile endpoint reply = .ok (result, client)) :
      Step profile calls (.receive position reply)
        ⟨client, calls.waiting.eraseIdx position,
          reply.measure endpoint calls.measured⟩

/--
Once an endpoint has a latency, a call goes to one whose latency is lowest
among those that have one, and not in turn.
-/
def SelectsBest {Value : Type} (calls : RpcCalls) : CallEvent Value → Prop
  | .receive _ _ => True
  | .send =>
    (∃ endpoint ∈ calls.client.endpoints, endpoint ∈ calls.measured) →
      ∃ endpoint client i,
        calls.client.send = .ok (endpoint, client) ∧
          client.endpointIdx = calls.client.endpointIdx ∧
          calls.client.endpoints[i]? = some endpoint ∧
          endpoint ∈ calls.measured ∧
          ∀ j other,
            calls.client.endpoints[j]? = some other →
            other ∈ calls.measured →
            calls.client.latency i ≤ calls.client.latency j

/-- A call is sent while no endpoint answered yet, or all have a latency. -/
def NoneOrAllMeasured {Value : Type} (calls : RpcCalls) :
    CallEvent Value → Prop
  | .receive _ _ => True
  | .send =>
    (∀ endpoint ∈ calls.client.endpoints, endpoint ∉ calls.measured) ∨
      ∀ i < calls.client.endpoints.length, calls.client.latency i ≠ 0

end RpcCalls

/-! The selection. -/

namespace RpcClient

variable
  {client : RpcClient}
  {i : Nat}

/-- There is a latency for every endpoint, and it is a u64. -/
structure Valid (client : RpcClient) : Prop where
  sized : client.endpointLatencies.length = max client.endpoints.length 1
  fits : ∀ latency ∈ client.endpointLatencies, latency < 2 ^ 64

theorem Valid.latency_lt
    (valid : client.Valid)
    (i : Nat) :
    client.latency i < 2 ^ 64 := by
  rw [latency, List.getD_eq_getElem?_getD]
  cases found : client.endpointLatencies[i]? with
  | none =>
      exact Nat.two_pow_pos 64
  | some value =>
      exact valid.fits value (List.mem_of_getElem? found)

/-- The scan of the latencies is one of their positions. -/
theorem foldl_takeLower_eq (client : RpcClient) (start : Best Nat) :
    client.endpointLatencies.zipIdx.foldl takeLower start =
      (List.range client.endpointLatencies.length).foldl
        (improve client.latency) start := by
  have positions :
      client.endpointLatencies.zipIdx =
        (List.range client.endpointLatencies.length).map
          (fun i => (client.latency i, i)) := by
    apply List.ext_getElem
    · rw [List.length_zipIdx, List.length_map, List.length_range]
    · intro i inList _
      rw [List.length_zipIdx] at inList
      simp [latency, inList]
  rw [positions, List.foldl_map]
  rfl

/-- The scan ends on the first lowest latency. -/
theorem Valid.scanned
    (valid : client.Valid)
    (notEmpty : client.endpoints ≠ []) :
    ∃ least,
      IsFirstLeast client.latency client.endpoints.length least ∧
        client.endpointLatencies.zipIdx.foldl takeLower ⟨2 ^ 64 - 1, 0⟩ =
          ⟨client.latency least, least⟩ := by
  have positive := List.length_pos_of_ne_nil notEmpty
  have sized : client.endpointLatencies.length = client.endpoints.length :=
    valid.sized.trans (max_eq_left positive)
  rw [foldl_takeLower_eq, sized]
  exact foldl_improve positive (Nat.le_sub_one_of_lt (valid.latency_lt 0))

/-- Without a zero among the latencies the first lowest one is selected. -/
theorem Valid.select_of_positive
    (valid : client.Valid)
    (notEmpty : client.endpoints ≠ [])
    (positive : ∀ i < client.endpoints.length, client.latency i ≠ 0) :
    ∃ least endpoint,
      IsFirstLeast client.latency client.endpoints.length least ∧
        client.endpoints[least]? = some endpoint ∧
        client.selectEndpoint = .ok (endpoint, client) := by
  obtain ⟨least, isLeast, scanned⟩ := valid.scanned notEmpty
  have found := List.getElem?_eq_getElem isLeast.inRange
  refine ⟨least, _, isLeast, found, ?_⟩
  have notIsEmpty : ¬ client.endpoints.isEmpty :=
    fun isEmpty => notEmpty (List.isEmpty_iff.mp isEmpty)
  rw [selectEndpoint, if_neg notIsEmpty, scanned]
  simp only [if_neg (positive least isLeast.inRange)]
  rw [index_eq_ok.mpr found, Checked.ok_bind]
  rfl

/-- With a zero among the latencies the endpoints take turns. -/
theorem Valid.select_of_zero
    (valid : client.Valid)
    (inRange : i < client.endpoints.length)
    (isZero : client.latency i = 0) :
    ∃ endpoint ∈ client.endpoints,
      client.selectEndpoint =
        .ok (endpoint,
          { client with endpointIdx := fetchAdd client.endpointIdx 1 }) := by
  have notEmpty : client.endpoints ≠ [] :=
    List.ne_nil_of_length_pos (Nat.zero_lt_of_lt inRange)
  obtain ⟨least, isLeast, scanned⟩ := valid.scanned notEmpty
  have leastIsZero : client.latency least = 0 :=
    Nat.le_zero.mp (isZero ▸ isLeast.least i inRange)
  have positionInRange :
      client.endpointIdx % client.endpoints.length <
        client.endpoints.length :=
    Nat.mod_lt _ (Nat.zero_lt_of_lt inRange)
  have divides : client.endpoints.length ≠ 0 := Nat.ne_zero_of_lt inRange
  have notIsEmpty : ¬ client.endpoints.isEmpty :=
    fun isEmpty => notEmpty (List.isEmpty_iff.mp isEmpty)
  refine ⟨client.endpoints.get ⟨_, positionInRange⟩, List.get_mem _ _, ?_⟩
  rw [selectEndpoint, if_neg notIsEmpty, scanned]
  simp only [if_pos leastIsZero]
  rw [rem, if_neg divides, Checked.ok_bind, index_of_lt positionInRange,
    Checked.ok_bind]
  rfl

/-- A selection leaves the endpoints and their latencies as they are. -/
theorem select_frame
    {endpoint : String}
    {after : RpcClient}
    (selected : client.selectEndpoint = .ok (endpoint, after)) :
    after.endpoints = client.endpoints ∧
      after.endpointLatencies = client.endpointLatencies := by
  rw [selectEndpoint] at selected
  split at selected
  · obtain ⟨-, rfl⟩ := Prod.mk.inj (Except.ok.inj selected)
    exact ⟨rfl, rfl⟩
  · dsimp only at selected
    split at selected
    · obtain ⟨position, -, selected⟩ := Checked.bind_eq_ok.mp selected
      obtain ⟨found, -, selected⟩ := Checked.bind_eq_ok.mp selected
      obtain ⟨-, rfl⟩ := Prod.mk.inj (Except.ok.inj selected)
      exact ⟨rfl, rfl⟩
    · obtain ⟨found, -, selected⟩ := Checked.bind_eq_ok.mp selected
      obtain ⟨-, rfl⟩ := Prod.mk.inj (Except.ok.inj selected)
      exact ⟨rfl, rfl⟩

/-- A turn changes the counter of the turns. -/
theorem fetchAdd_one_ne (counter : Nat) : fetchAdd counter 1 ≠ counter := by
  rw [fetchAdd]
  omega

/-- An average is a u64. -/
theorem average_lt
    {profile : Profile}
    {prev latencyNs ema : Nat}
    (fits : latencyNs < 2 ^ 64)
    (computed : average profile prev latencyNs = .ok ema) :
    ema < 2 ^ 64 := by
  rw [average] at computed
  split at computed
  · obtain rfl := Except.ok.inj computed
    exact fits
  · obtain ⟨weighted, -, computed⟩ := Checked.bind_eq_ok.mp computed
    obtain ⟨sum, added, computed⟩ := Checked.bind_eq_ok.mp computed
    obtain rfl := Except.ok.inj computed
    exact (Nat.div_le_self sum 8).trans_lt (fit_lt added)

/-- A latency is recorded for one endpoint, or for none. -/
theorem record_cases
    {profile : Profile}
    {endpoint : String}
    {nanos : Nat}
    {after : RpcClient}
    (recorded : client.record profile endpoint nanos = .ok after) :
    (endpoint ∉ client.endpoints ∧ after = client) ∨
      ∃ idx ema,
        client.endpoints[idx]? = some endpoint ∧
          average profile (client.latency idx) (nanos % 2 ^ 64) = .ok ema ∧
          idx < client.endpointLatencies.length ∧
          after =
            { client with
              endpointLatencies := client.endpointLatencies.set idx ema } := by
  rw [RpcClient.record] at recorded
  split at recorded
  · next absent =>
      refine .inl ⟨fun member => ?_, (Except.ok.inj recorded).symm⟩
      simpa using List.findIdx?_eq_none_iff.mp absent endpoint member
  · next idx found =>
      obtain ⟨inRange, isEndpoint, -⟩ :=
        List.findIdx?_eq_some_iff_getElem.mp found
      obtain ⟨prev, read, recorded⟩ := Checked.bind_eq_ok.mp recorded
      obtain ⟨ema, averaged, recorded⟩ := Checked.bind_eq_ok.mp recorded
      obtain ⟨latencies, stored, recorded⟩ := Checked.bind_eq_ok.mp recorded
      have hasLatency := index_eq_ok.mp read
      have idxInRange : idx < client.endpointLatencies.length :=
        (List.getElem?_eq_some_iff.mp hasLatency).1
      have isPrev : client.latency idx = prev := by
        rw [latency, List.getD_eq_getElem?_getD, hasLatency]
        rfl
      rw [store_of_lt idxInRange] at stored
      obtain rfl := Except.ok.inj stored
      refine .inr ⟨idx, ema, ?_, isPrev ▸ averaged, idxInRange,
        (Except.ok.inj recorded).symm⟩
      rw [List.getElem?_eq_getElem inRange, of_decide_eq_true isEndpoint]

/-- Recording a latency keeps the client valid. -/
theorem Valid.record
    {profile : Profile}
    {endpoint : String}
    {nanos : Nat}
    {after : RpcClient}
    (valid : client.Valid)
    (recorded : client.record profile endpoint nanos = .ok after) :
    after.Valid := by
  rcases record_cases recorded with
    ⟨-, rfl⟩ | ⟨idx, ema, -, averaged, -, rfl⟩
  · exact valid
  · refine ⟨(List.length_set ..).trans valid.sized, ?_⟩
    intro latency member
    rcases List.mem_or_eq_of_mem_set member with earlier | rfl
    · exact valid.fits latency earlier
    · exact average_lt (Nat.mod_lt _ (Nat.two_pow_pos 64)) averaged

theorem latency_set
    {idx : Nat}
    (inRange : idx < client.endpointLatencies.length)
    (ema j : Nat) :
    { client with
        endpointLatencies := client.endpointLatencies.set idx ema }.latency j =
      if j = idx then ema else client.latency j := by
  simp only [latency, List.getD_eq_getElem?_getD, List.getElem?_set]
  by_cases same : j = idx
  · rw [if_pos same.symm, if_pos (same ▸ inRange), if_pos same]
    rfl
  · rw [if_neg (Ne.symm same), if_neg same]

end RpcClient

namespace RpcCalls

variable
  {Value : Type}
  {profile : Profile}
  {calls after : RpcCalls}
  {event : CallEvent Value}

/-- Only endpoints that answered have a latency. -/
structure Keeps (calls : RpcCalls) : Prop where
  valid : calls.client.Valid
  measured :
    ∀ i endpoint,
      calls.client.endpoints[i]? = some endpoint →
      calls.client.latency i ≠ 0 →
      endpoint ∈ calls.measured

theorem start_keeps (endpoints : List String) : (start endpoints).Keeps := by
  refine ⟨⟨List.length_replicate, ?_⟩, ?_⟩
  · intro latency member
    rw [List.eq_of_mem_replicate member]
    exact Nat.two_pow_pos 64
  · intro i endpoint _ notZero
    refine absurd ?_ notZero
    rw [RpcClient.latency, List.getD_eq_getElem?_getD]
    exact List.getElem?_getD_replicate_default_eq 0 _ i

/-- Every event keeps the invariant. -/
theorem Step.keeps
    (step : Step profile calls event after)
    (keeps : calls.Keeps) :
    after.Keeps := by
  obtain ⟨valid, measured⟩ := keeps
  cases step with
  | send sent =>
      obtain ⟨sameEndpoints, sameLatencies⟩ := RpcClient.select_frame sent
      refine ⟨⟨?_, ?_⟩, ?_⟩
      · rw [sameEndpoints, sameLatencies]
        exact valid.sized
      · rw [sameLatencies]
        exact valid.fits
      · simp only [RpcClient.latency, sameEndpoints, sameLatencies]
        exact measured
  | @receive _ reply endpoint _ _ _ received =>
      cases reply with
      | failed error =>
          obtain ⟨-, rfl⟩ := Prod.mk.inj (Except.ok.inj received)
          exact ⟨valid, measured⟩
      | answered nanos response =>
          obtain ⟨client, recorded, received⟩ :=
            Checked.bind_eq_ok.mp received
          obtain ⟨-, rfl⟩ := Prod.mk.inj (Except.ok.inj received)
          refine ⟨valid.record recorded, ?_⟩
          intro i other found notZero
          rcases RpcClient.record_cases recorded with
            ⟨-, rfl⟩ | ⟨idx, ema, isEndpoint, -, inRange, rfl⟩
          · exact List.mem_cons_of_mem _ (measured i other found notZero)
          · rw [RpcClient.latency_set inRange] at notZero
            by_cases same : i = idx
            · obtain rfl := Option.some.inj
                ((same ▸ found).symm.trans isEndpoint)
              exact List.mem_cons_self
            · rw [if_neg same] at notZero
              exact List.mem_cons_of_mem _ (measured i other found notZero)

/-- A selection is the best one exactly if no latency is missing. -/
theorem Keeps.selectsBest_iff
    (keeps : calls.Keeps)
    (event : CallEvent Value) :
    SelectsBest calls event ↔ NoneOrAllMeasured calls event := by
  cases event with
  | receive position reply =>
      exact Iff.rfl
  | send =>
      have valid :
          ({ calls.client with
            requestId := fetchAdd calls.client.requestId 1 } :
              RpcClient).Valid :=
        ⟨keeps.valid.sized, keeps.valid.fits⟩
      constructor
      · intro best
        by_contra mixed
        obtain ⟨someMeasured, i, inRange, isZero⟩ :
            (∃ endpoint ∈ calls.client.endpoints,
              endpoint ∈ calls.measured) ∧
            ∃ i < calls.client.endpoints.length,
              calls.client.latency i = 0 := by
          simpa [NoneOrAllMeasured, not_or] using mixed
        obtain ⟨endpoint, client, -, sent, noTurn, -⟩ := best someMeasured
        obtain ⟨other, -, selected⟩ := valid.select_of_zero inRange isZero
        obtain ⟨-, rfl⟩ :=
          Prod.mk.inj (Except.ok.inj (sent.symm.trans selected))
        exact RpcClient.fetchAdd_one_ne _ noTurn
      · rintro (none | all) ⟨endpoint, member, isMeasured⟩
        · exact absurd isMeasured (none endpoint member)
        · obtain ⟨least, chosen, isLeast, found, selected⟩ :=
            valid.select_of_positive (List.ne_nil_of_mem member) all
          refine ⟨chosen, _, least, selected, rfl, found,
            keeps.measured least chosen found (all least isLeast.inRange), ?_⟩
          intro j other foundOther _
          exact isLeast.least j (List.getElem?_eq_some_iff.mp foundOther).1

/--
In every run, overlapping calls included, each call goes to the best endpoint
exactly if each is sent while no endpoint answered yet or all have a latency.
-/
theorem selectsBest_throughout_iff
    (profile : Profile)
    (endpoints : List String)
    (events : List (CallEvent Value)) :
    EveryStep (Step profile) SelectsBest (start endpoints) events ↔
      EveryStep (Step profile) NoneOrAllMeasured (start endpoints)
        events := by
  refine EveryStep.congr fun _ event _ calls _ run => ?_
  have keeps :=
    run.preserves Keeps (fun kept step => step.keeps kept)
      (start_keeps endpoints)
  exact keeps.selectsBest_iff event

/-- Two endpoints of which the first one answered after five nanoseconds. -/
theorem answered_endpoint_is_not_selected :
    ¬ EveryStep (Step .debug) SelectsBest (start ["first", "second"])
        [.send, .receive 0 (.answered 5 ⟨some (), none⟩), .send] := by
  intro always
  have run :
      Run (@Step Unit .debug) (start ["first", "second"])
        [.send, .receive 0 (.answered 5 ⟨some (), none⟩)]
        ⟨⟨["first", "second"], 2, 1, [5, 0]⟩, [], ["first"]⟩ :=
    .cons (@Step.send Unit .debug _ "first" _ rfl)
      (.cons (.receive rfl rfl) (.nil _))
  have best := always _ _ [] _ rfl run
  have keeps :=
    run.preserves Keeps (fun kept step => step.keeps kept) (start_keeps _)
  rcases (keeps.selectsBest_iff (.send : CallEvent Unit)).mp best with
    none | all
  · exact none "first" List.mem_cons_self List.mem_cons_self
  · exact all 1 (by decide) rfl

/-! Which endpoints have a latency. -/

/-- With a second endpoint the first answer leaves one without a latency. -/
theorem Step.mixed_of_first_answer
    {position nanos : Nat}
    {response : JsonRpcResponse Value}
    (step :
      Step profile calls (.receive position (.answered nanos response)) after)
    (known :
      ∀ endpoint ∈ calls.waiting, endpoint ∈ calls.client.endpoints)
    (noLatency : ∀ i, calls.client.latency i = 0)
    (two : 1 < calls.client.endpoints.length) :
    ¬ NoneOrAllMeasured after (.send : CallEvent Value) := by
  cases step with
  | @receive _ _ endpoint _ _ waits received =>
      obtain ⟨client, recorded, received⟩ := Checked.bind_eq_ok.mp received
      obtain ⟨-, rfl⟩ := Prod.mk.inj (Except.ok.inj received)
      have member := known endpoint (List.mem_of_getElem? waits)
      rcases RpcClient.record_cases recorded with
        ⟨unknown, -⟩ | ⟨idx, ema, -, -, inRange, rfl⟩
      · exact absurd member unknown
      · rintro (none | all)
        · exact none endpoint member List.mem_cons_self
        · -- Some position other than the recorded one is in range.
          obtain ⟨other, otherInRange, different⟩ :
              ∃ other < calls.client.endpoints.length, other ≠ idx := by
            by_cases isFirst : idx = 0
            · exact ⟨1, two, by omega⟩
            · exact ⟨0, by omega, Ne.symm isFirst⟩
          refine all other otherInRange ?_
          rw [RpcClient.latency_set inRange, if_neg different]
          exact noLatency other

/-- A call is a request and its reply, with nothing in between. -/
theorem run_call
    {result : Except String Value}
    {reply : Reply Value}
    {client : RpcClient}
    (called : calls.client.call profile reply = .ok (result, client)) :
    ∃ endpoint,
      Run (Step profile) calls
        [.send, .receive calls.waiting.length reply]
        ⟨client, calls.waiting, reply.measure endpoint calls.measured⟩ := by
  obtain ⟨⟨endpoint, sending⟩, sent, received⟩ := Checked.bind_eq_ok.mp called
  have waits :
      (calls.waiting ++ [endpoint])[calls.waiting.length]? =
        some endpoint :=
    List.getElem?_concat_length
  have left :
      (calls.waiting ++ [endpoint]).eraseIdx calls.waiting.length =
        calls.waiting := by
    rw [List.eraseIdx_append_of_length_le (le_refl _), Nat.sub_self]
    exact List.append_nil _
  have last :=
    @Step.receive Value profile
      ⟨sending, calls.waiting ++ [endpoint], calls.measured⟩
      calls.waiting.length reply endpoint result client waits received
  dsimp only at last
  rw [left] at last
  exact ⟨endpoint, .cons (.send sent) (.cons last (.nil _))⟩

/-- The endpoints differ, and those that answered have a latency. -/
structure AnswersKept (calls : RpcCalls) : Prop where
  distinct : calls.client.endpoints.Nodup
  kept :
    ∀ i endpoint,
      calls.client.endpoints[i]? = some endpoint →
      endpoint ∈ calls.measured →
      calls.client.latency i ≠ 0

/-- The time of an answer is positive as a u64. -/
def PositiveTime : CallEvent Value → Prop
  | .receive _ (.answered nanos _) => 0 < nanos % 2 ^ 64
  | _ => True

/-- A positive latency has a positive average, since no sum wraps. -/
theorem average_pos
    {prev latencyNs ema : Nat}
    (positive : 0 < latencyNs)
    (computed : RpcClient.average .debug prev latencyNs = .ok ema) :
    ema ≠ 0 := by
  rw [RpcClient.average] at computed
  split at computed
  · obtain rfl := Except.ok.inj computed
    exact Nat.ne_of_gt positive
  · next notZero =>
      obtain ⟨weighted, multiplied, computed⟩ :=
        Checked.bind_eq_ok.mp computed
      obtain ⟨sum, added, computed⟩ := Checked.bind_eq_ok.mp computed
      obtain ⟨-, rfl⟩ := mul_debug_eq_ok.mp multiplied
      obtain ⟨-, rfl⟩ := add_debug_eq_ok.mp added
      obtain rfl := Except.ok.inj computed
      omega

/-- In a debug build an endpoint that answered keeps a latency. -/
theorem Step.answersKept
    (step : Step .debug calls event after)
    (positive : PositiveTime event)
    (answersKept : calls.AnswersKept) :
    after.AnswersKept := by
  obtain ⟨distinct, kept⟩ := answersKept
  cases step with
  | send sent =>
      obtain ⟨sameEndpoints, sameLatencies⟩ := RpcClient.select_frame sent
      refine ⟨sameEndpoints ▸ distinct, ?_⟩
      simp only [RpcClient.latency, sameEndpoints, sameLatencies]
      exact kept
  | @receive _ reply endpoint _ _ _ received =>
      cases reply with
      | failed error =>
          obtain ⟨-, rfl⟩ := Prod.mk.inj (Except.ok.inj received)
          exact ⟨distinct, kept⟩
      | answered nanos response =>
          obtain ⟨client, recorded, received⟩ :=
            Checked.bind_eq_ok.mp received
          obtain ⟨-, rfl⟩ := Prod.mk.inj (Except.ok.inj received)
          rcases RpcClient.record_cases recorded with
            ⟨unknown, rfl⟩ | ⟨idx, ema, isEndpoint, averaged, inRange, rfl⟩
          · refine ⟨distinct, fun i other found isMeasured => ?_⟩
            rcases List.mem_cons.mp isMeasured with rfl | earlier
            · exact absurd (List.mem_of_getElem? found) unknown
            · exact kept i other found earlier
          · refine ⟨distinct, fun i other found isMeasured => ?_⟩
            rw [RpcClient.latency_set inRange]
            by_cases same : i = idx
            · rw [if_pos same]
              exact average_pos positive averaged
            · rw [if_neg same]
              rcases List.mem_cons.mp isMeasured with rfl | earlier
              · -- Only one position has the endpoint that answered.
                have bound := (List.getElem?_eq_some_iff.mp found).1
                exact absurd
                  ((List.getElem?_inj bound distinct).mp
                    (found.trans isEndpoint.symm))
                  same
              · exact kept i other found earlier

/-- A call is sent while no endpoint answered yet, or all of them did. -/
def NoneOrAllAnswered (calls : RpcCalls) : CallEvent Value → Prop
  | .receive _ _ => True
  | .send =>
    (∀ endpoint ∈ calls.client.endpoints, endpoint ∉ calls.measured) ∨
      ∀ endpoint ∈ calls.client.endpoints, endpoint ∈ calls.measured

/-- Where answers are kept, the latencies tell which endpoints answered. -/
theorem AnswersKept.noneOrAll_iff
    (answersKept : calls.AnswersKept)
    (keeps : calls.Keeps)
    (event : CallEvent Value) :
    NoneOrAllMeasured calls event ↔ NoneOrAllAnswered calls event := by
  cases event with
  | receive position reply =>
      exact Iff.rfl
  | send =>
      refine or_congr_right ⟨fun all endpoint member => ?_,
        fun all i inRange => ?_⟩
      · obtain ⟨i, inRange, rfl⟩ := List.mem_iff_getElem.mp member
        exact keeps.measured i _ (List.getElem?_eq_getElem inRange)
          (all i inRange)
      · exact answersKept.kept i _ (List.getElem?_eq_getElem inRange)
          (all _ (List.getElem_mem inRange))

/--
In a debug build, for distinct endpoints and positive times, each call goes to
the best endpoint exactly if each is sent before any answer or after an answer
of every endpoint.
-/
theorem selectsBest_debug_iff
    {endpoints : List String}
    (distinct : endpoints.Nodup)
    {events : List (CallEvent Value)}
    (positive : ∀ event ∈ events, PositiveTime event) :
    EveryStep (Step .debug) SelectsBest (start endpoints) events ↔
      EveryStep (Step .debug) NoneOrAllAnswered (start endpoints) events := by
  refine EveryStep.congr fun earlier event _ calls shape run => ?_
  have keeps :=
    run.preserves Keeps (fun kept step => step.keeps kept)
      (start_keeps endpoints)
  have positiveBefore : ∀ event ∈ earlier, PositiveTime event :=
    fun event member => positive event (shape ▸ List.mem_append_left _ member)
  have answersKept : calls.AnswersKept :=
    (run.restrict positiveBefore).preserves AnswersKept
      (fun kept step => step.2.answersKept step.1 kept)
      ⟨distinct, fun _ _ _ isMeasured => absurd isMeasured List.not_mem_nil⟩
  exact (keeps.selectsBest_iff event).trans
    (answersKept.noneOrAll_iff keeps event)

end RpcCalls

end YieldDaemon
