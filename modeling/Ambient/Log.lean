/-!
# Reports on progress

A run reports what it does as a list of events. `Logged` is a result together with the events up to
it; an error ends a run, and the events before it stay. `Logged.outcome` forgets the events, and
does so step by step (`outcome_bind`), so that what a run computes can be stated without them.
-/

namespace Ambient

/-- How much an event matters. -/
inductive LogLevel where
  | error | warn | info | debug | trace
  deriving DecidableEq, Repr

namespace LogLevel

/-- The level from the most urgent on. -/
def rank : LogLevel → Nat
  | error => 1
  | warn => 2
  | info => 3
  | debug => 4
  | trace => 5

/-- The level in five columns. -/
def label : LogLevel → String
  | error => "ERROR"
  | warn => " WARN"
  | info => " INFO"
  | debug => "DEBUG"
  | trace => "TRACE"

end LogLevel

/-- The part of the program that reports an event. -/
inductive Topic where
  | commandLine | project | assembly | cloning | qualifying | finishing
  deriving DecidableEq, Repr

/-- The name of the part in log filters. -/
def Topic.target : Topic → String
  | commandLine => "dts_rewrap"
  | project => "dts_rewrap::project"
  | assembly => "dts_rewrap::assemble"
  | cloning => "dts_rewrap::clone"
  | qualifying => "dts_rewrap::rewrite"
  | finishing => "dts_rewrap::finalize"

/-- Something that happened in a run. -/
structure Event where
  level : LogLevel
  topic : Topic
  message : String
  fields : List (String × String) := []
  deriving DecidableEq, Repr

/-- The event as a line. -/
def Event.line (e : Event) : String :=
  e.fields.foldl (fun s f => s ++ " " ++ f.1 ++ "=" ++ f.2) (e.level.label ++ " " ++ e.message)

/-- The result of a run with the events up to it. -/
structure Logged (ε α : Type) where
  events : List Event
  outcome : Except ε α

namespace Logged

variable {ε ε' α β : Type}

instance : Monad (Logged ε) where
  pure a := ⟨[], .ok a⟩
  bind x f :=
    match x.outcome with
    | .error e => ⟨x.events, .error e⟩
    | .ok a => ⟨x.events ++ (f a).events, (f a).outcome⟩

/-- Reports an event. -/
def note (e : Event) : Logged ε Unit :=
  ⟨[e], .ok ()⟩

/-- A result without events. -/
def ofExcept (x : Except ε α) : Logged ε α :=
  ⟨[], x⟩

/-- A run whose errors are seen as errors of a larger one. -/
def mapError (f : ε → ε') (x : Logged ε α) : Logged ε' α :=
  ⟨x.events, x.outcome.mapError f⟩

@[simp] theorem outcome_pure (a : α) : (pure a : Logged ε α).outcome = .ok a := rfl

@[simp] theorem outcome_note (e : Event) : (note e : Logged ε Unit).outcome = .ok () := rfl

@[simp] theorem outcome_ofExcept (x : Except ε α) : (ofExcept x).outcome = x := rfl

@[simp] theorem outcome_mapError (f : ε → ε') (x : Logged ε α) :
    (x.mapError f).outcome = x.outcome.mapError f := rfl

@[simp] theorem outcome_bind (x : Logged ε α) (f : α → Logged ε β) :
    (x >>= f).outcome = x.outcome >>= fun a => (f a).outcome := by
  obtain ⟨es, o⟩ := x
  cases o <;> rfl

end Logged

/-- A run that changes a state or has other effects on its way. -/
def LoggedT (ε : Type) (m : Type → Type) (α : Type) : Type :=
  m (Logged ε α)

namespace LoggedT

variable {ε ε' α : Type} {m : Type → Type} [Monad m]

instance : Monad (LoggedT ε m) where
  pure a := (pure (pure a : Logged ε _) : m _)
  bind x f := (do
    let r ← (x : m _)
    match r.outcome with
    | .error e => pure ⟨r.events, .error e⟩
    | .ok a =>
      let s ← (f a : m _)
      pure ⟨r.events ++ s.events, s.outcome⟩ : m _)

/-- A run without effects. -/
def ofLogged (x : Logged ε α) : LoggedT ε m α :=
  (pure x : m _)

/-- Effects that cannot fail and report nothing. -/
def lift (x : m α) : LoggedT ε m α :=
  ((fun a => Logged.ofExcept (.ok a)) <$> x : m _)

/-- Effects that report nothing. -/
def ofEffects (x : m (Except ε α)) : LoggedT ε m α :=
  (Logged.ofExcept <$> x : m _)

/-- Reports an event. -/
def note (e : Event) : LoggedT ε m Unit :=
  ofLogged (.note e)

/-- A run whose errors are seen as errors of a larger one. -/
def mapError (f : ε → ε') (x : LoggedT ε m α) : LoggedT ε' m α :=
  (Logged.mapError f <$> (x : m _) : m _)

end LoggedT

end Ambient
