import YieldDaemon.ReentrantCalls

namespace ReentrantCalls

/-!
# Calls among settled callees

A program whose callees are known runs in a world of theirs.  A handler answers
each of its calls, or reverts it, which reverts the program too.
-/

variable {State Message Query Answer World : Type}

/-- What a callee answers, with the state and the world that it leaves. -/
abbrev Handler (State Query Answer World : Type) :=
  Query → State → World → Option (Answer × State × World)

namespace Program

/-- Run a program, with a handler for its calls. -/
def settle (handle : Handler State Query Answer World) :
    Program State Query Answer → World → Option (State × World)
  | .revert, _ => none
  | .done state, world => some (state, world)
  | .external query state resume, world =>
      (handle query state world).bind fun reply =>
        (resume reply.1 reply.2.1).settle handle reply.2.2

variable
  {handle : Handler State Query Answer World}
  {world : World}
  {result : State × World}

theorem settle_done {state : State} :
    (done state : Program State Query Answer).settle handle world =
        some result ↔
      (state, world) = result :=
  Option.some_inj

/-- A requirement holds where the program settles. -/
theorem settle_require
    {condition : Prop}
    [Decidable condition]
    {next : Program State Query Answer} :
    (require condition next).settle handle world = some result ↔
      condition ∧ next.settle handle world = some result := by
  unfold require
  split
  next holds => exact (and_iff_right holds).symm
  next fails => exact ⟨nofun, fun settled => absurd settled.1 fails⟩

/-- A call is answered before the program goes on. -/
theorem settle_external
    {query : Query}
    {state : State}
    {resume : Answer → State → Program State Query Answer} :
    (external query state resume).settle handle world = some result ↔
      ∃ answer next later,
        handle query state world = some (answer, next, later) ∧
          (resume answer next).settle handle later = some result := by
  rw [settle, Option.bind_eq_some_iff]
  constructor
  · rintro ⟨⟨answer, next, later⟩, handled, settled⟩
    exact ⟨answer, next, later, handled, settled⟩
  · rintro ⟨answer, next, later, handled, settled⟩
    exact ⟨(answer, next, later), handled, settled⟩

end Program

end ReentrantCalls
