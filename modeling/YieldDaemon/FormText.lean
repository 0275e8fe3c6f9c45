import Mathlib.Data.List.Basic

namespace FormText

/-!
# Form texts

Names with values, written as `name=value` with `&` in between.  The reader
splits at every `&`, then at the first `=`, and decodes what it finds.
-/

/-- A text, as its characters. -/
abbrev Text := List Char

/-- A name with its value. -/
abbrev Field := Text × Text

def renderField (field : Field) : Text :=
  field.1 ++ '=' :: field.2

/-- Write fields one after the other. -/
def render (fields : List Field) : Text :=
  ['&'].intercalate (fields.map renderField)

/-- Split at the first `=`; without one, the value is empty. -/
def splitField : Text → Field
  | [] => ([], [])
  | '=' :: rest => ([], rest)
  | char :: rest => (char :: (splitField rest).1, (splitField rest).2)

/-- Read the fields of a text. -/
def parse (decode : Text → Text) (text : Text) : List Field :=
  (text.splitOn '&').map fun piece =>
    (decode (splitField piece).1, decode (splitField piece).2)

/-- The value of the first field with a name. -/
def lookup (fields : List Field) (name : Text) : Option Text :=
  (fields.find? (fun field => field.1 = name)).map Prod.snd

/-- The text has no character that a reader would decode. -/
def Uncoded (text : Text) : Prop :=
  '%' ∉ text ∧ '+' ∉ text

/-- The text ends no name and no field either. -/
structure Plain (text : Text) : Prop where
  uncoded : Uncoded text
  noSign : '=' ∉ text
  noSeparator : '&' ∉ text

instance (text : Text) : Decidable (Uncoded text) :=
  inferInstanceAs (Decidable ('%' ∉ text ∧ '+' ∉ text))

instance (text : Text) : Decidable (Plain text) :=
  decidable_of_iff (Uncoded text ∧ '=' ∉ text ∧ '&' ∉ text)
    ⟨fun ⟨uncoded, noSign, noSeparator⟩ => ⟨uncoded, noSign, noSeparator⟩,
      fun plain => ⟨plain.uncoded, plain.noSign, plain.noSeparator⟩⟩

/-- The reader leaves texts alone that nothing is encoded in. -/
def DecodesPlain (decode : Text → Text) : Prop :=
  ∀ text, Uncoded text → decode text = text

theorem splitField_renderField
    {field : Field}
    (noSign : '=' ∉ field.1) :
    splitField (renderField field) = field := by
  obtain ⟨name, value⟩ := field
  induction name with
  | nil =>
      rfl
  | cons char name inductionHypothesis =>
      rw [List.mem_cons, not_or] at noSign
      have rest := inductionHypothesis noSign.2
      unfold renderField at rest ⊢
      rw [List.cons_append, splitField]
      · rw [rest]
      · rintro rfl
        exact noSign.1 rfl

theorem mem_renderField
    {field : Field}
    (name : '&' ∉ field.1) :
    '&' ∈ renderField field ↔ '&' ∈ field.2 := by
  simp [renderField, name]

/-- A text has one more piece than separators. -/
theorem two_le_length_splitOn
    {text : Text}
    (separated : '&' ∈ text) :
    2 ≤ (text.splitOn '&').length := by
  obtain ⟨front, back, rfl⟩ := List.append_of_mem separated
  rw [List.splitOn_append_cons_self, List.length_append]
  have first := List.length_pos_iff.mpr (List.splitOn_ne_nil '&' front)
  have second := List.length_pos_iff.mpr (List.splitOn_ne_nil '&' back)
  omega

/-- Fewer separators cannot be than between the fields. -/
theorem length_splitOn_render
    {fields : List Field}
    (nonempty : fields ≠ []) :
    fields.length ≤ ((render fields).splitOn '&').length ∧
      (((render fields).splitOn '&').length = fields.length →
        ∀ field ∈ fields, '&' ∉ renderField field) := by
  induction fields with
  | nil =>
      exact absurd rfl nonempty
  | cons field fields inductionHypothesis =>
      have pieces :=
        List.length_pos_iff.mpr (List.splitOn_ne_nil '&' (renderField field))
      cases fields with
      | nil =>
          rw [render, List.map_singleton, List.intercalate_singleton]
          refine ⟨pieces, fun single => ?_⟩
          rw [List.forall_mem_singleton]
          intro separated
          have two := two_le_length_splitOn separated
          rw [single] at two
          exact absurd two (Nat.not_succ_le_self 1)
      | cons next fields =>
          obtain ⟨enough, exact⟩ :=
            inductionHypothesis (List.cons_ne_nil next fields)
          have joined :
              render (field :: next :: fields) =
                renderField field ++ '&' :: render (next :: fields) := by
            simp [render]
          rw [joined, List.splitOn_append_cons_self, List.length_append,
            List.length_cons (a := field)]
          refine ⟨by omega, fun same => ?_⟩
          rw [List.forall_mem_cons]
          refine ⟨fun separated => ?_, exact (by omega)⟩
          have two := two_le_length_splitOn separated
          omega

variable {decode : Text → Text} {fields : List Field}

/-- Fields are read back exactly if no value holds a separator. -/
theorem parse_render_iff
    (decodes : DecodesPlain decode)
    (names : ∀ field ∈ fields, Plain field.1)
    (values : ∀ field ∈ fields, Uncoded field.2)
    (nonempty : fields ≠ []) :
    parse decode (render fields) = fields ↔
      ∀ field ∈ fields, '&' ∉ field.2 := by
  constructor
  · intro readBack field member
    have counted :
        ((render fields).splitOn '&').length = fields.length := by
      have lengths := congrArg List.length readBack
      rwa [parse, List.length_map] at lengths
    rw [← mem_renderField (names field member).noSeparator]
    exact (length_splitOn_render nonempty).2 counted field member
  · intro separate
    have pieces :
        (render fields).splitOn '&' = fields.map renderField := by
      refine List.splitOn_intercalate '&' ?_ (by simpa using nonempty)
      rw [List.forall_mem_map]
      intro field member
      rw [mem_renderField (names field member).noSeparator]
      exact separate field member
    rw [parse, pieces, List.map_map]
    refine (List.map_congr_left fun field member => ?_).trans
      (List.map_id fields)
    have name := names field member
    rw [Function.comp_apply, splitField_renderField name.noSign,
      decodes _ name.uncoded, decodes _ (values field member)]
    rfl

/-- The first field is read back, whatever comes after it. -/
theorem lookup_parse_render
    {first : Field}
    {later : List Field}
    (decodes : DecodesPlain decode)
    (name : Plain first.1)
    (value : Plain first.2) :
    lookup (parse decode (render (first :: later))) first.1 =
      some first.2 := by
  have separate : '&' ∉ renderField first := by
    rw [mem_renderField name.noSeparator]
    exact value.noSeparator
  have piece :
      ∃ rest, (render (first :: later)).splitOn '&' = renderField first :: rest := by
    cases later with
    | nil =>
        refine ⟨[], ?_⟩
        rw [render, List.map_singleton, List.intercalate_singleton]
        exact List.splitOn_eq_singleton separate
    | cons next later =>
        have joined :
            render (first :: next :: later) =
              renderField first ++ '&' :: render (next :: later) := by
          simp [render]
        rw [joined, List.splitOn_append_cons_self_of_not_mem separate]
        exact ⟨_, rfl⟩
  obtain ⟨rest, pieces⟩ := piece
  rw [lookup, parse, pieces, List.map_cons,
    splitField_renderField name.noSign, decodes _ name.uncoded,
    decodes _ value.uncoded]
  simp

end FormText
