/-!
# Line endings

A line ends with a carriage return and line feed, a lone line feed or a lone carriage return.
`normalize` writes every ending as carriage return and line feed, and changes nothing else. It
works from the front with the result so far in reverse, so that long texts need no deep recursion;
`toList_normalize` says that the result is `normalizeChars` of the text.
-/

namespace Ambient.Text.LineEnding

/-- Every line ending as carriage return and line feed. -/
def normalizeChars : List Char → List Char
  | [] => []
  | '\r' :: '\n' :: cs => '\r' :: '\n' :: normalizeChars cs
  | '\r' :: cs => '\r' :: '\n' :: normalizeChars cs
  | '\n' :: cs => '\r' :: '\n' :: normalizeChars cs
  | c :: cs => c :: normalizeChars cs

/-- Normalized characters in reverse, in front of those so far. -/
def normalizeOnto (acc : List Char) : List Char → List Char
  | [] => acc
  | '\r' :: '\n' :: cs => normalizeOnto ('\n' :: '\r' :: acc) cs
  | '\r' :: cs => normalizeOnto ('\n' :: '\r' :: acc) cs
  | '\n' :: cs => normalizeOnto ('\n' :: '\r' :: acc) cs
  | c :: cs => normalizeOnto (c :: acc) cs

/-- A text with every line ending written as carriage return and line feed. -/
def normalize (s : String) : String :=
  String.ofList (normalizeOnto [] s.toList).reverse

theorem normalizeOnto_eq (acc cs : List Char) :
    normalizeOnto acc cs = (normalizeChars cs).reverse ++ acc := by
  fun_induction normalizeOnto acc cs <;> simp_all [normalizeChars]

@[simp] theorem toList_normalize (s : String) :
    (normalize s).toList = normalizeChars s.toList := by
  simp [normalize, normalizeOnto_eq]

end Ambient.Text.LineEnding
