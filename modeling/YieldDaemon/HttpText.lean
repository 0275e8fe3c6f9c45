import YieldDaemon.ExpositionFormat

namespace HttpText

open ExpositionFormat

/-!
# HTTP responses as text

A status line and headers, each ended by a carriage return and a line feed, an
empty line, and a body of as many bytes as the headers say.
-/

/-- A response of version 1.1. -/
structure Response where
  status : Text
  headers : List (Text × Text)
  body : Text
  deriving DecidableEq

def lineEnd : Text := ['\r', '\n']

/-- The text up to the first line end, and what follows it. -/
def readLine : Text → Option (Text × Text)
  | [] => none
  | first :: rest =>
      if first = '\r' ∧ rest.head? = some '\n' then
        some ([], rest.tail)
      else
        (readLine rest).map fun read => (first :: read.1, read.2)

theorem readLine_line
    {line : Text}
    (clean : '\r' ∉ line)
    (rest : Text) :
    readLine (line ++ (lineEnd ++ rest)) = some (line, rest) := by
  induction line with
  | nil =>
      rfl
  | cons first line inductionHypothesis =>
      rw [List.mem_cons, not_or] at clean
      rw [List.cons_append, readLine, inductionHypothesis clean.2,
        if_neg (fun isEnd => clean.1 isEnd.1.symm)]
      rfl

/-- The lines before the first empty one, of at most `fuel` lines. -/
def readHead : Nat → Text → Option (List Text × Text)
  | 0, _ => none
  | fuel + 1, text => do
      let (line, rest) ← readLine text
      if line = [] then
        some ([], rest)
      else
        let (lines, body) ← readHead fuel rest
        some (line :: lines, body)

theorem readHead_lines
    {lines : List Text}
    {fuel : Nat}
    (clean : ∀ line ∈ lines, line ≠ [] ∧ '\r' ∉ line)
    (enough : lines.length < fuel)
    (body : Text) :
    readHead fuel
        (lines.flatMap (fun line => line ++ lineEnd) ++ (lineEnd ++ body)) =
      some (lines, body) := by
  induction lines generalizing fuel with
  | nil =>
      obtain ⟨fuel, rfl⟩ := Nat.exists_eq_succ_of_ne_zero enough.ne'
      rfl
  | cons line lines inductionHypothesis =>
      obtain ⟨fuel, rfl⟩ :=
        Nat.exists_eq_succ_of_ne_zero (Nat.ne_zero_of_lt enough)
      rw [List.forall_mem_cons] at clean
      have later :=
        inductionHypothesis clean.2 (Nat.lt_of_succ_lt_succ enough)
      rw [List.flatMap_cons, List.append_assoc, List.append_assoc, readHead,
        readLine_line clean.1.2]
      simp [clean.1.1, later]

/-- A header line with its name and its value. -/
def renderHeader (header : Text × Text) : Text :=
  header.1 ++ ':' :: ' ' :: header.2

def parseHeader (line : Text) : Option (Text × Text) :=
  match line.dropWhile (· ≠ ':') with
  | ':' :: ' ' :: value => some (line.takeWhile (· ≠ ':'), value)
  | _ => none

/-- A header that stays on its line and whose name ends at its colon. -/
def CleanHeader (header : Text × Text) : Prop :=
  ':' ∉ header.1 ∧ '\r' ∉ header.1 ∧ '\r' ∉ header.2

theorem parseHeader_render
    {header : Text × Text}
    (clean : CleanHeader header) :
    parseHeader (renderHeader header) = some header := by
  have noColon : ∀ letter ∈ header.1, decide (letter ≠ ':') = true := by
    intro letter member
    exact decide_eq_true fun isColon => clean.1 (isColon ▸ member)
  have rest :
      (renderHeader header).dropWhile (· ≠ ':') = ':' :: ' ' :: header.2 := by
    rw [renderHeader, List.dropWhile_append_of_pos noColon]
    rfl
  have name : (renderHeader header).takeWhile (· ≠ ':') = header.1 := by
    rw [renderHeader, List.takeWhile_append_of_pos noColon]
    simp
  rw [parseHeader, rest, name]
  rfl

/-- The length of a text in UTF-8. -/
def byteLength (text : Text) : Nat :=
  (text.map Char.utf8Size).sum

/-- The characters that the first bytes hold. -/
def takeBytes : Nat → Text → Text
  | _, [] => []
  | count, first :: rest =>
      if first.utf8Size ≤ count then
        first :: takeBytes (count - first.utf8Size) rest
      else
        []

theorem takeBytes_byteLength (text : Text) :
    takeBytes (byteLength text) text = text := by
  induction text with
  | nil =>
      rfl
  | cons first rest inductionHypothesis =>
      have total :
          byteLength (first :: rest) = first.utf8Size + byteLength rest := rfl
      rw [total, takeBytes, if_pos (Nat.le_add_right _ _),
        Nat.add_sub_cancel_left, inductionHypothesis]

def version : Text := ['H', 'T', 'T', 'P', '/', '1', '.', '1', ' ']

def contentLength : Text := "Content-Length".toList

namespace Response

/-- The lines of the head. -/
def head (response : Response) : List Text :=
  (version ++ response.status) :: response.headers.map renderHeader

def render (response : Response) : Text :=
  response.head.flatMap (fun line => line ++ lineEnd) ++
    (lineEnd ++ response.body)

/-- A response that can be told apart, with the length of its body. -/
structure WellFormed (response : Response) : Prop where
  status : '\r' ∉ response.status
  headers : ∀ header ∈ response.headers, CleanHeader header
  length :
    response.headers.lookup contentLength =
      some (Nat.toDigits 10 (byteLength response.body))

end Response

/-- Parse a head of known lines. -/
def parseHead : List Text → Option (Text × List (Text × Text))
  | [] => none
  | first :: lines =>
      if version.isPrefixOf first then do
        let headers ← lines.mapM parseHeader
        some (first.drop version.length, headers)
      else
        none

/-- A response whose body is complete. -/
def parse (text : Text) : Option Response := do
  let (lines, rest) ← readHead (text.length + 1) text
  let (status, headers) ← parseHead lines
  let digits ← headers.lookup contentLength
  let length ← parseNumber digits
  let body := takeBytes length rest
  if byteLength body = length then
    some ⟨status, headers, body⟩
  else
    none

theorem parseHead_head
    {response : Response}
    (wellFormed : response.WellFormed) :
    parseHead response.head = some (response.status, response.headers) := by
  have headers :
      (response.headers.map renderHeader).mapM parseHeader =
        some response.headers :=
    mapM_map_parse fun header member =>
      parseHeader_render (wellFormed.headers header member)
  have isPrefix : version.isPrefixOf (version ++ response.status) = true :=
    List.isPrefixOf_iff_prefix.mpr (List.prefix_append _ _)
  rw [Response.head, parseHead, if_pos isPrefix, headers,
    List.drop_left]
  rfl

theorem clean_head
    {response : Response}
    (wellFormed : response.WellFormed) :
    ∀ line ∈ response.head, line ≠ [] ∧ '\r' ∉ line := by
  intro line member
  rcases List.mem_cons.mp member with rfl | member
  · have cleanVersion : '\r' ∉ version := by decide
    refine ⟨List.cons_ne_nil _ _, ?_⟩
    rw [List.mem_append, not_or]
    exact ⟨cleanVersion, wellFormed.status⟩
  · obtain ⟨header, isHeader, rfl⟩ := List.mem_map.mp member
    obtain ⟨-, cleanName, cleanValue⟩ := wellFormed.headers header isHeader
    exact ⟨by simp [renderHeader],
      by simp [renderHeader, cleanName, cleanValue]⟩

/-- What is rendered is parsed back, with its whole body. -/
theorem parse_render
    {response : Response}
    (wellFormed : response.WellFormed) :
    parse response.render = some response := by
  have enough : response.head.length < response.render.length + 1 := by
    refine Nat.lt_succ_of_le ?_
    rw [Response.render, List.length_append, List.length_flatMap]
    refine le_trans ?_ (Nat.le_add_right _ _)
    have each :
        ∀ length ∈ response.head.map (fun line => (line ++ lineEnd).length),
          1 ≤ length := by
      intro length member
      obtain ⟨line, -, rfl⟩ := List.mem_map.mp member
      rw [List.length_append]
      exact Nat.le_add_left_of_le (by decide)
    simpa using List.card_nsmul_le_sum _ 1 each
  rw [parse, Response.render, ← Response.render,
    show readHead (response.render.length + 1) response.render =
      some (response.head, response.body) from
      readHead_lines (clean_head wellFormed) enough response.body]
  simp only [Option.bind_eq_bind, Option.bind_some, parseHead_head wellFormed,
    wellFormed.length, parseNumber_toDigits, takeBytes_byteLength,
    ↓reduceIte]

end HttpText
