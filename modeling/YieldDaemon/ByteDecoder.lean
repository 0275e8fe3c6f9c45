import Mathlib.Tactic

namespace ByteDecoder

/-!
# Decoders of byte strings

A decoder takes a value off the front of a list of bytes and leaves the rest.
It reads an encoding if it finds the encoded value in front of every suffix,
and what is read piece by piece is read as a whole.
-/

/-- A decoder leaves the bytes that it does not use, or fails. -/
abbrev Decoder (Value : Type) :=
  StateT (List UInt8) Option Value

variable {Value Other : Type}

/-- The decoder finds the value at the bytes, whatever follows them. -/
def Reads
    (decoder : Decoder Value)
    (bytes : List UInt8)
    (value : Value) : Prop :=
  ∀ suffix, decoder.run (bytes ++ suffix) = some (value, suffix)

namespace Reads

variable
  {decoder : Decoder Value}
  {bytes : List UInt8}
  {value : Value}

theorem pure (value : Value) :
    Reads (Pure.pure value) [] value :=
  fun _ => rfl

/-- What two decoders read in turn is read by their composition. -/
theorem bind
    {later : Value → Decoder Other}
    {laterBytes : List UInt8}
    {result : Other}
    (reads : Reads decoder bytes value)
    (readsLater : Reads (later value) laterBytes result) :
    Reads (decoder >>= later) (bytes ++ laterBytes) result := by
  intro suffix
  rw [StateT.run_bind, List.append_assoc, reads]
  exact readsLater suffix

/-- A last step that reads nothing more. -/
theorem map
    (reads : Reads decoder bytes value)
    (convert : Value → Other) :
    Reads (decoder >>= fun found => Pure.pure (convert found)) bytes
      (convert value) := by
  have whole :
      Reads (decoder >>= fun found => Pure.pure (convert found))
        (bytes ++ []) (convert value) :=
    reads.bind (Reads.pure (convert value))
  rwa [List.append_nil] at whole

/-- One encoding is read as one value. -/
theorem value_unique
    {other : Value}
    (reads : Reads decoder bytes value)
    (readsOther : Reads decoder bytes other) :
    value = other := by
  have same := (reads []).symm.trans (readsOther [])
  exact congrArg Prod.fst (Option.some.inj same)

end Reads

/-- Read one byte. -/
def byte : Decoder UInt8 := fun
  | [] => none
  | first :: rest => some (first, rest)

theorem reads_byte (value : UInt8) : Reads byte [value] value :=
  fun _ => rfl

/-- Read as many values as the count says. -/
def replicate (decoder : Decoder Value) : Nat → Decoder (List Value)
  | 0 => pure []
  | count + 1 => do
    let first ← decoder
    let rest ← replicate decoder count
    return first :: rest

/-- A list is read value by value if each of its values is. -/
theorem reads_replicate
    {decoder : Decoder Value}
    {encode : Value → List UInt8}
    {values : List Value}
    (reads : ∀ value ∈ values, Reads decoder (encode value) value) :
    Reads (replicate decoder values.length) (values.flatMap encode)
      values := by
  induction values with
  | nil =>
      exact Reads.pure []
  | cons value values inductionHypothesis =>
      have rest := inductionHypothesis
        (fun other member => reads other (List.mem_cons_of_mem _ member))
      exact (reads value List.mem_cons_self).bind
        (rest.map (fun later => value :: later))

/-- A string of bytes is read byte by byte. -/
theorem reads_bytes
    {count : Nat}
    {values : List UInt8}
    (sized : values.length = count) :
    Reads (replicate byte count) values values := by
  have each :
      Reads (replicate byte values.length)
        (values.flatMap (fun value => [value])) values :=
    reads_replicate (fun value _ => reads_byte value)
  rwa [sized, List.flatMap_singleton'] at each

end ByteDecoder
