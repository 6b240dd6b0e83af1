import Ambient.Json

/-!
# The manifest of a package

Only the version is read from a manifest. It may be missing or null. A manifest with more than one
version, or with one that is no string, cannot be used, and neither can a text that is no JSON. An
array stands for an object with the version as its only member.
-/

namespace Ambient

/-- The version that a value gives: none for null. -/
def JsonValue.asVersion? : JsonValue → Option (Option String)
  | .null => some none
  | .string (some text) => some (some text)
  | _ => none

/-- The version in a manifest, if the manifest can be used. -/
def manifestVersion? (text : String) : Option (Option String) := do
  match ← readJson text with
  | .array [v] => v.asVersion?
  | .object members =>
    if members.any (·.1.isNone) then none
    else
      match members.filter (·.1 = some "version") with
      | [] => some none
      | [(_, v)] => v.asVersion?
      | _ => none
  | _ => none

end Ambient
