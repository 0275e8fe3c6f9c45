import YieldDaemon.HttpText
import YieldDaemon.MetricsBridge

namespace YieldDaemon

open ExpositionFormat HttpText

/-!
# Prometheus endpoint

The daemon also serves its counters over HTTP.  A scraper that follows the text
format and the content length finds every counter in the answer.
-/

/-- One metric that the endpoint exposes. -/
structure Exposed where
  name : String
  help : String
  kind : String
  counter : Counter

/-- The metrics in the order in which they are emitted. -/
def exposedMetrics : List Exposed := [
  ⟨"yield_daemon_zk_proofs_generated", "ZK proofs generated", "counter",
    .zkProofsGenerated⟩,
  ⟨"yield_daemon_zk_proofs_accepted", "ZK proofs accepted", "counter",
    .zkProofsAccepted⟩,
  ⟨"yield_daemon_zk_revenue_sat", "ZK revenue in satoshis", "counter",
    .zkRevenueSat⟩,
  ⟨"yield_daemon_mev_opportunities_detected", "MEV opportunities detected",
    "counter", .mevOpportunitiesDetected⟩,
  ⟨"yield_daemon_mev_bundles_submitted", "MEV bundles submitted", "counter",
    .mevBundlesSubmitted⟩,
  ⟨"yield_daemon_mev_revenue_sat", "MEV revenue in satoshis", "counter",
    .mevRevenueSat⟩,
  ⟨"yield_daemon_ml_inferences_served", "ML inferences served", "counter",
    .mlInferencesServed⟩,
  ⟨"yield_daemon_ml_training_rounds", "ML background training rounds",
    "counter", .mlTrainingRounds⟩,
  ⟨"yield_daemon_ml_revenue_sat", "ML revenue in satoshis", "counter",
    .mlRevenueSat⟩,
  ⟨"yield_daemon_total_cycles", "Total daemon cycles", "counter",
    .totalCycles⟩,
  ⟨"yield_daemon_uptime_seconds", "Daemon uptime in seconds", "gauge",
    .uptimeSecs⟩,
  ⟨"yield_daemon_aste_cycles", "ASTE searcher cycles", "counter",
    .asteCycles⟩,
  ⟨"yield_daemon_aste_arb_detected", "ASTE arbitrage cycles detected",
    "counter", .asteArbDetected⟩,
  ⟨"yield_daemon_aste_arb_profitable", "ASTE profitable arbitrages",
    "counter", .asteArbProfitable⟩,
  ⟨"yield_daemon_aste_latency_ns", "ASTE avg cycle latency nanoseconds",
    "gauge", .asteLatencyNs⟩,
  ⟨"yield_daemon_treasury_profit_accumulated",
    "Treasury total profit accumulated", "counter",
    .treasuryProfitAccumulated⟩,
  ⟨"yield_daemon_treasury_stablecoin_balance",
    "Treasury stablecoin balance (micro-USD)", "gauge",
    .treasuryStablecoinBalance⟩,
  ⟨"yield_daemon_treasury_fiat_withdrawn_cents",
    "Treasury fiat withdrawn to bank (cents)", "counter",
    .treasuryFiatWithdrawnCents⟩,
  ⟨"yield_daemon_treasury_offramp_cycles",
    "Treasury off-ramp cycles completed", "counter",
    .treasuryOfframpCycles⟩]

namespace Exposed

/-- The three lines of one metric. -/
def emit (metric : Exposed) (value : Nat) : String :=
  "# HELP " ++ metric.name ++ " " ++ metric.help ++ "\n# TYPE " ++
    metric.name ++ " " ++ metric.kind ++ "\n" ++ metric.name ++ " " ++
    toString value ++ "\n"

/-- What these lines say. -/
def lines (metric : Exposed) (value : Nat) : List Line :=
  [.help metric.name.toList metric.help.toList,
    .type metric.name.toList metric.kind.toList,
    .sample metric.name.toList value]

theorem toList_emit (metric : Exposed) (value : Nat) :
    (metric.emit value).toList =
      ExpositionFormat.render (metric.lines value) := by
  have helpStart :
      "# HELP ".toList = hash ++ ' ' :: (helpWord ++ [' ']) := by
    decide +kernel
  have typeStart :
      "\n# TYPE ".toList = '\n' :: (hash ++ ' ' :: (typeWord ++ [' '])) := by
    decide +kernel
  have blank : " ".toList = [' '] := by
    decide +kernel
  have newline : "\n".toList = ['\n'] := by
    decide +kernel
  unfold emit lines
  rw [Nat.toString_eq_repr]
  simp only [String.toList_append]
  rw [Nat.toList_repr, helpStart, typeStart, blank, newline]
  simp only [ExpositionFormat.render, List.flatMap_cons, List.flatMap_nil,
    Line.render, List.append_assoc, List.cons_append, List.nil_append,
    List.append_nil]

end Exposed

/--
Render the metrics in the text format; each counter is loaded when its line is
written.
-/
def renderPrometheus (loaded : Counter → Nat) : String :=
  exposedMetrics.foldl
    (fun out metric => out ++ metric.emit (loaded metric.counter)) ""

/-- What all lines say. -/
def prometheusLines (loaded : Counter → Nat) : List Line :=
  exposedMetrics.flatMap fun metric => metric.lines (loaded metric.counter)

/--
`starts_with` on the decoded request: an ASCII prefix is decoded as itself, so
the bytes are compared here.
-/
def isMetrics (request : List UInt8) : Bool :=
  "GET /metrics".toUTF8.data.toList.isPrefixOf request ||
    "GET / ".toUTF8.data.toList.isPrefixOf request

/-- The answer to the bytes of a request, of which 1024 are read at most. -/
def servePrometheus (loaded : Counter → Nat) (request : List UInt8) : String :=
  let isMetrics := isMetrics (request.take 1024)
  let status := if isMetrics then "200 OK" else "404 Not Found"
  let ctype :=
    if isMetrics then "text/plain; version=0.0.4" else "text/plain"
  let body := if isMetrics then renderPrometheus loaded else "not found\n"
  "HTTP/1.1 " ++ status ++ "\r\nContent-Type: " ++ ctype ++
    "\r\nContent-Length: " ++ toString body.utf8ByteSize ++
    "\r\nConnection: close\r\n\r\n" ++ body

theorem toList_renderPrometheus (loaded : Counter → Nat) :
    (renderPrometheus loaded).toList =
      ExpositionFormat.render (prometheusLines loaded) := by
  have appended :
      ∀ (metrics : List Exposed) (out : String),
        (metrics.foldl
          (fun out metric => out ++ metric.emit (loaded metric.counter))
          out).toList =
          out.toList ++
            ExpositionFormat.render
              (metrics.flatMap fun metric =>
                metric.lines (loaded metric.counter)) := by
    intro metrics
    induction metrics with
    | nil =>
        intro out
        exact (List.append_nil _).symm
    | cons metric metrics inductionHypothesis =>
        intro out
        rw [List.foldl_cons, inductionHypothesis, String.toList_append,
          Exposed.toList_emit, List.append_assoc, List.flatMap_cons]
        simp only [ExpositionFormat.render, List.flatMap_append]
  exact appended exposedMetrics ""

/-- Names and kinds are words, and no help text goes over its line. -/
theorem exposedMetrics_wellFormed :
    ∀ metric ∈ exposedMetrics,
      (' ' ∉ metric.name.toList ∧ '\n' ∉ metric.name.toList ∧
        metric.name.toList ≠ hash) ∧
      '\n' ∉ metric.help.toList ∧
      ' ' ∉ metric.kind.toList ∧ '\n' ∉ metric.kind.toList := by
  decide +kernel

theorem prometheusLines_wellFormed (loaded : Counter → Nat) :
    ∀ line ∈ prometheusLines loaded, line.WellFormed := by
  intro line member
  obtain ⟨metric, isMetric, member⟩ := List.mem_flatMap.mp member
  obtain ⟨⟨noBlank, noEnd, notHash⟩, helpEnd, kindBlank, kindEnd⟩ :=
    exposedMetrics_wellFormed metric isMetric
  simp only [Exposed.lines, List.mem_cons, List.not_mem_nil, or_false]
    at member
  rcases member with rfl | rfl | rfl
  · exact ⟨⟨noBlank, noEnd⟩, helpEnd⟩
  · exact ⟨⟨noBlank, noEnd⟩, kindBlank, kindEnd⟩
  · exact ⟨⟨noBlank, noEnd⟩, notHash⟩

/-- The length of a string is that of its characters in UTF-8. -/
theorem utf8ByteSize_eq (text : String) :
    text.utf8ByteSize = byteLength text.toList := by
  have ofCharacters :
      ∀ letters : List Char,
        (String.ofList letters).utf8ByteSize = byteLength letters := by
    intro letters
    induction letters with
    | nil =>
        rfl
    | cons letter letters inductionHypothesis =>
        rw [String.ofList_cons, String.utf8ByteSize_append,
          String.utf8ByteSize_singleton, inductionHypothesis]
        rfl
  rw [← ofCharacters, String.ofList_toList]

/-- The response that the endpoint gives with a status, a type and a body. -/
def endpointResponse (status ctype body : String) : Response where
  status := status.toList
  headers := [
    ("Content-Type".toList, ctype.toList),
    (contentLength, Nat.toDigits 10 (byteLength body.toList)),
    ("Connection".toList, "close".toList)]
  body := body.toList

theorem toList_response (status ctype body : String) :
    ("HTTP/1.1 " ++ status ++ "\r\nContent-Type: " ++ ctype ++
        "\r\nContent-Length: " ++ toString body.utf8ByteSize ++
        "\r\nConnection: close\r\n\r\n" ++ body).toList =
      (endpointResponse status ctype body).render := by
  have start : "HTTP/1.1 ".toList = version := rfl
  have first :
      "\r\nContent-Type: ".toList =
        lineEnd ++ ("Content-Type".toList ++ [':', ' ']) := by
    decide +kernel
  have second :
      "\r\nContent-Length: ".toList =
        lineEnd ++ (contentLength ++ [':', ' ']) := by
    decide +kernel
  have third :
      "\r\nConnection: close\r\n\r\n".toList =
        lineEnd ++ ("Connection".toList ++
          ':' :: ' ' :: ("close".toList ++ (lineEnd ++ lineEnd))) := by
    decide +kernel
  simp only [String.toList_append, Nat.toString_eq_repr, Nat.toList_repr,
    utf8ByteSize_eq, start, first, second, third, Response.render,
    Response.head, endpointResponse, renderHeader, List.map_cons,
    List.map_nil, List.flatMap_cons, List.flatMap_nil, List.append_assoc,
    List.cons_append, List.nil_append, List.append_nil]

theorem endpointResponse_wellFormed
    {status ctype : String}
    (cleanStatus : '\r' ∉ status.toList)
    (cleanType : '\r' ∉ ctype.toList)
    (body : String) :
    (endpointResponse status ctype body).WellFormed where
  status := cleanStatus
  headers := by
    intro header member
    simp only [endpointResponse, List.mem_cons, List.not_mem_nil, or_false]
      at member
    have cleanNames :
        ∀ name ∈ ["Content-Type".toList, contentLength, "Connection".toList],
          ':' ∉ name ∧ '\r' ∉ name := by
      decide +kernel
    have cleanClose : '\r' ∉ "close".toList := by
      decide +kernel
    simp only [List.forall_mem_cons] at cleanNames
    rcases member with rfl | rfl | rfl
    · exact ⟨cleanNames.1.1, cleanNames.1.2, cleanType⟩
    · exact ⟨cleanNames.2.1.1, cleanNames.2.1.2,
        not_mem_toDigits '\r' rfl _⟩
    · exact ⟨cleanNames.2.2.1.1, cleanNames.2.2.1.2, cleanClose⟩
  length := by
    have different : (contentLength == "Content-Type".toList) = false := by
      decide +kernel
    simp only [endpointResponse, List.lookup_cons, different, beq_self_eq_true]

/-- Every counter of the daemon is exposed by one metric. -/
theorem exposedMetrics_complete (counter : Counter) :
    ∃ metric, exposedMetrics.filter (·.counter = counter) = [metric] := by
  cases counter <;> exact ⟨_, rfl⟩

/--
Whatever bytes are sent, the answer is a complete response: a request for the
metrics is answered by a text whose lines are, in order, the help, the type and
the loaded value of every metric, one for each counter; any other request is not
found.
-/
theorem scrape_is_read_back (loaded : Counter → Nat) (request : List UInt8) :
    HttpText.parse (servePrometheus loaded request).toList =
      some
        (if isMetrics (request.take 1024) then
          endpointResponse "200 OK" "text/plain; version=0.0.4"
            (renderPrometheus loaded)
        else
          endpointResponse "404 Not Found" "text/plain" "not found\n") ∧
      ExpositionFormat.parse (renderPrometheus loaded).toList =
        some (prometheusLines loaded) ∧
      ∀ counter,
        ∃ metric, exposedMetrics.filter (·.counter = counter) = [metric] := by
  refine ⟨?_, ?_, exposedMetrics_complete⟩
  · unfold servePrometheus
    dsimp only
    rw [toList_response]
    cases isMetrics (request.take 1024) with
    | true =>
        exact HttpText.parse_render
          (endpointResponse_wellFormed (by decide +kernel) (by decide +kernel) _)
    | false =>
        exact HttpText.parse_render
          (endpointResponse_wellFormed (by decide +kernel) (by decide +kernel) _)
  · rw [toList_renderPrometheus]
    exact ExpositionFormat.parse_render (prometheusLines_wellFormed loaded)

end YieldDaemon
