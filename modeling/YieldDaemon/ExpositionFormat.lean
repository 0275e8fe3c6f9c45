import Mathlib.Tactic

namespace ExpositionFormat

/-!
# Text exposition of metrics

A text of lines: what a metric is about, its type, and its value.  What is
written line by line is parsed back line by line.
-/

/-- A text, as its characters. -/
abbrev Text := List Char

/-- A line of the format. -/
inductive Line where
  | help (name text : Text)
  | type (name kind : Text)
  | sample (name : Text) (value : Nat)
  deriving DecidableEq

/-- Elements that are parsed back one by one are parsed back together. -/
theorem mapM_map_parse
    {Element Rendered : Type}
    {render : Element → Rendered}
    {parse : Rendered → Option Element}
    {elements : List Element}
    (parsed : ∀ element ∈ elements, parse (render element) = some element) :
    (elements.map render).mapM parse = some elements := by
  induction elements with
  | nil =>
      rfl
  | cons element elements inductionHypothesis =>
      rw [List.forall_mem_cons] at parsed
      rw [List.map_cons, List.mapM_cons, parsed.1,
        inductionHypothesis parsed.2]
      rfl

/-- A decimal number without a sign. -/
def parseNumber (text : Text) : Option Nat :=
  if text ≠ [] ∧ text.all Char.isDigit then
    some (Nat.ofDigitChars 10 text 0)
  else
    none

theorem parseNumber_toDigits (value : Nat) :
    parseNumber (Nat.toDigits 10 value) = some value := by
  have digits : (Nat.toDigits 10 value).all Char.isDigit = true := by
    rw [List.all_eq_true]
    intro digit member
    exact Nat.isDigit_of_mem_toDigits (by decide) (by decide) member
  rw [parseNumber, if_pos ⟨Nat.toDigits_ne_nil, digits⟩,
    Nat.ofDigitChars_ten_toDigits]

/-- The digits contain no separator. -/
theorem not_mem_toDigits
    (separator : Char)
    (notDigit : separator.isDigit = false)
    (value : Nat) :
    separator ∉ Nat.toDigits 10 value := by
  intro member
  have isDigit :=
    Nat.isDigit_of_mem_toDigits (by decide) (by decide) member
  rw [notDigit] at isDigit
  cases isDigit

def hash : Text := ['#']

def helpWord : Text := "HELP".toList

def typeWord : Text := "TYPE".toList

/-- A line without its end. -/
def Line.render : Line → Text
  | .help name text => hash ++ ' ' :: (helpWord ++ ' ' :: (name ++ ' ' :: text))
  | .type name kind => hash ++ ' ' :: (typeWord ++ ' ' :: (name ++ ' ' :: kind))
  | .sample name value => name ++ ' ' :: Nat.toDigits 10 value

/-- What the words after a hash describe. -/
def parseComment : List Text → Option Line
  | word :: name :: rest =>
      if word = helpWord then
        some (.help name ([' '].intercalate rest))
      else if word = typeWord then
        match rest with
        | [kind] => some (.type name kind)
        | _ => none
      else
        none
  | _ => none

/-- A name and a number. -/
def parseSample : List Text → Option Line
  | [name, digits] => (parseNumber digits).map (.sample name)
  | _ => none

def parseLine (line : Text) : Option Line :=
  match line.splitOn ' ' with
  | first :: rest =>
      if first = hash then
        parseComment rest
      else
        parseSample (first :: rest)
  | [] => none

/-- A word stands between blanks. -/
def IsWord (word : Text) : Prop :=
  ' ' ∉ word ∧ '\n' ∉ word

/-- Names and kinds are words, and no text goes over its line. -/
def Line.WellFormed : Line → Prop
  | .help name text => IsWord name ∧ '\n' ∉ text
  | .type name kind => IsWord name ∧ IsWord kind
  | .sample name _ => IsWord name ∧ name ≠ hash

/-- The first word is split off at its blank. -/
theorem splitOn_word
    {word : Text}
    (isWord : IsWord word)
    (rest : Text) :
    (word ++ ' ' :: rest).splitOn ' ' = word :: rest.splitOn ' ' :=
  List.splitOn_append_cons_self_of_not_mem isWord.1 rest

theorem parseLine_render
    {line : Line}
    (wellFormed : line.WellFormed) :
    parseLine line.render = some line := by
  have hashWord : IsWord hash := ⟨by decide, by decide⟩
  have helpIsWord : IsWord helpWord := ⟨by decide, by decide⟩
  have typeIsWord : IsWord typeWord := ⟨by decide, by decide⟩
  cases line with
  | help name text =>
      simp only [parseLine, Line.render, splitOn_word hashWord,
        splitOn_word helpIsWord, splitOn_word wellFormed.1, ↓reduceIte,
        parseComment, List.intercalate_splitOn]
  | type name kind =>
      have different : typeWord ≠ helpWord := by decide
      simp only [parseLine, Line.render, splitOn_word hashWord,
        splitOn_word typeIsWord, splitOn_word wellFormed.1, ↓reduceIte,
        parseComment, different, List.splitOn_eq_singleton wellFormed.2.1]
  | sample name value =>
      have noBlank := not_mem_toDigits ' ' rfl value
      simp only [parseLine, Line.render, splitOn_word wellFormed.1,
        wellFormed.2, ↓reduceIte, parseSample,
        List.splitOn_eq_singleton noBlank, parseNumber_toDigits,
        Option.map_some]

/-- A rendered line stays on its line. -/
theorem newline_not_mem_render
    {line : Line}
    (wellFormed : line.WellFormed) :
    '\n' ∉ line.render := by
  cases line with
  | help name text =>
      simp [Line.render, hash, helpWord, wellFormed.1.2, wellFormed.2]
  | type name kind =>
      simp [Line.render, hash, typeWord, wellFormed.1.2, wellFormed.2.2]
  | sample name value =>
      simp [Line.render, wellFormed.1.2, not_mem_toDigits]

/-- Every line ends with a line feed. -/
def render (lines : List Line) : Text :=
  lines.flatMap fun line => line.render ++ ['\n']

/-- A text whose last line has ended. -/
def parse (text : Text) : Option (List Line) :=
  let pieces := text.splitOn '\n'
  if pieces.getLast? = some [] then
    pieces.dropLast.mapM parseLine
  else
    none

theorem splitOn_render
    {lines : List Line}
    (wellFormed : ∀ line ∈ lines, line.WellFormed) :
    (render lines).splitOn '\n' = lines.map Line.render ++ [[]] := by
  induction lines with
  | nil =>
      rfl
  | cons line lines inductionHypothesis =>
      rw [List.forall_mem_cons] at wellFormed
      rw [render, List.flatMap_cons, List.append_assoc, List.singleton_append,
        List.splitOn_append_cons_self_of_not_mem
          (newline_not_mem_render wellFormed.1)]
      exact congrArg _ (inductionHypothesis wellFormed.2)

theorem parse_render
    {lines : List Line}
    (wellFormed : ∀ line ∈ lines, line.WellFormed) :
    parse (render lines) = some lines := by
  have parsed : (lines.map Line.render).mapM parseLine = some lines :=
    mapM_map_parse fun line member => parseLine_render (wellFormed line member)
  rw [parse, splitOn_render wellFormed]
  simp only [List.getLast?_append, List.getLast?_singleton, Option.some_or,
    ↓reduceIte, List.dropLast_concat, parsed]

end ExpositionFormat
