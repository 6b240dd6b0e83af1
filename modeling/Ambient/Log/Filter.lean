import Ambient.Log
import Ambient.Text.Lines

/-!
# Log filters

A filter is a list of rules, each of which says for the events of one part of the program, or of
all parts, how much an event has to matter to be shown. Of the rules for an event the one with the
longest target counts, and of several with the same target the last one.
-/

namespace Ambient

/-- What is shown of the events whose target starts with the one given. -/
structure FilterRule where
  target : String
  /-- The least urgent level that is shown. Nothing is shown without one. -/
  level : Option LogLevel
  deriving DecidableEq, Repr

/-- Whether an event matters enough. -/
def FilterRule.admits (r : FilterRule) (e : Event) : Bool :=
  match r.level with
  | none => false
  | some l => e.level.rank ≤ l.rank

/-- Says which events are shown. -/
structure LogFilter where
  rules : List FilterRule
  deriving DecidableEq, Repr

namespace LogFilter

/-- A filter that shows events of every part down to a level. -/
def upTo (level : LogLevel) : LogFilter :=
  ⟨[⟨"", some level⟩]⟩

/-- The rule that counts for a target. -/
def ruleFor? (f : LogFilter) (target : String) : Option FilterRule :=
  f.rules.foldl (fun best r =>
    if r.target.toList <+: target.toList ∧ best.all (·.target.length ≤ r.target.length) then some r
    else best) none

/-- Whether an event is shown. -/
def shows (f : LogFilter) (e : Event) : Bool :=
  (f.ruleFor? e.topic.target).any (·.admits e)

/-! ## Reading filters -/

/-- The level with a name or number, where none at all is a level too. -/
def level? (name : String) : Option (Option LogLevel) :=
  match name.toLower with
  | "off" | "0" => some none
  | "error" | "1" => some (some .error)
  | "warn" | "2" => some (some .warn)
  | "info" | "3" => some (some .info)
  | "debug" | "4" => some (some .debug)
  | "trace" | "5" => some (some .trace)
  | _ => none

/-- The rule that is written as a level, a target, or both with an equals sign between them. -/
def rule? (text : String) : Option FilterRule :=
  match level? text with
  | some level => some ⟨"", level⟩
  | none =>
    let target := text.toList.takeWhile (· ≠ '=')
    match text.toList.drop target.length with
    | [] => some ⟨text, some .trace⟩
    | _ :: level => (level? (String.ofList level)).map fun l => ⟨String.ofList target, l⟩

/-- The filter that is written as rules with commas between them. Without any rule, errors are
shown. -/
def parse? (text : String) : Option LogFilter := do
  let parts := (Text.parts ',' text.toList).filter (· ≠ [])
  let rules ← parts.mapM fun cs => rule? (String.ofList cs)
  some (if rules.isEmpty then upTo .error else ⟨rules⟩)

end LogFilter

end Ambient
