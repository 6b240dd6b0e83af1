/-!
# Words and symbols of declaration files

The reserved words (`Keyword`) and the punctuation (`Symbol`) of TypeScript declaration files.
Each has the text it is written with (`text`) and the name it has in messages (`label`).
-/

namespace Ambient

/-- A reserved word. Many of them may still name a property or a parameter. -/
inductive Keyword where
  | declareKw | functionKw | interfaceKw | classKw | enumKw | typeKw | namespaceKw | moduleKw
  | exportKw | importKw | constKw | letKw | varKw | readonlyKw | extendsKw | implementsKw | newKw
  | typeofKw | keyofKw | inferKw | asKw | isKw | fromKw | defaultKw | staticKw | publicKw
  | privateKw | protectedKw | abstractKw | inKw | outKw | thisKw
  | stringKw | numberKw | booleanKw | voidKw | nullKw | undefinedKw | anyKw | unknownKw | neverKw
  | objectKw | symbolKw | bigintKw | trueKw | falseKw
  deriving DecidableEq, Repr

namespace Keyword

/-- Every reserved word. -/
def all : List Keyword :=
  [declareKw, functionKw, interfaceKw, classKw, enumKw, typeKw, namespaceKw, moduleKw,
   exportKw, importKw, constKw, letKw, varKw, readonlyKw, extendsKw, implementsKw, newKw,
   typeofKw, keyofKw, inferKw, asKw, isKw, fromKw, defaultKw, staticKw, publicKw,
   privateKw, protectedKw, abstractKw, inKw, outKw, thisKw,
   stringKw, numberKw, booleanKw, voidKw, nullKw, undefinedKw, anyKw, unknownKw, neverKw,
   objectKw, symbolKw, bigintKw, trueKw, falseKw]

/-- How the word is written. -/
def text : Keyword → String
  | declareKw => "declare" | functionKw => "function" | interfaceKw => "interface"
  | classKw => "class" | enumKw => "enum" | typeKw => "type" | namespaceKw => "namespace"
  | moduleKw => "module" | exportKw => "export" | importKw => "import" | constKw => "const"
  | letKw => "let" | varKw => "var" | readonlyKw => "readonly" | extendsKw => "extends"
  | implementsKw => "implements" | newKw => "new" | typeofKw => "typeof" | keyofKw => "keyof"
  | inferKw => "infer" | asKw => "as" | isKw => "is" | fromKw => "from"
  | defaultKw => "default" | staticKw => "static" | publicKw => "public"
  | privateKw => "private" | protectedKw => "protected" | abstractKw => "abstract"
  | inKw => "in" | outKw => "out" | thisKw => "this" | stringKw => "string"
  | numberKw => "number" | booleanKw => "boolean" | voidKw => "void" | nullKw => "null"
  | undefinedKw => "undefined" | anyKw => "any" | unknownKw => "unknown" | neverKw => "never"
  | objectKw => "object" | symbolKw => "symbol" | bigintKw => "bigint" | trueKw => "true"
  | falseKw => "false"

/-- The name of the word in messages. Words that stand for types and values end in an
underscore. -/
def label : Keyword → String
  | declareKw => "Declare" | functionKw => "Function" | interfaceKw => "Interface"
  | classKw => "Class" | enumKw => "Enum" | typeKw => "Type" | namespaceKw => "Namespace"
  | moduleKw => "Module" | exportKw => "Export" | importKw => "Import" | constKw => "Const"
  | letKw => "Let" | varKw => "Var" | readonlyKw => "Readonly" | extendsKw => "Extends"
  | implementsKw => "Implements" | newKw => "New" | typeofKw => "Typeof" | keyofKw => "Keyof"
  | inferKw => "Infer" | asKw => "As" | isKw => "Is" | fromKw => "From"
  | defaultKw => "Default" | staticKw => "Static" | publicKw => "Public"
  | privateKw => "Private" | protectedKw => "Protected" | abstractKw => "Abstract"
  | inKw => "In" | outKw => "Out" | thisKw => "This" | stringKw => "String_"
  | numberKw => "Number_" | booleanKw => "Boolean_" | voidKw => "Void_" | nullKw => "Null_"
  | undefinedKw => "Undefined_" | anyKw => "Any_" | unknownKw => "Unknown_"
  | neverKw => "Never_" | objectKw => "Object_" | symbolKw => "Symbol_"
  | bigintKw => "BigInt_" | trueKw => "True_" | falseKw => "False_"

/-- The reserved word with this text, if there is one. -/
def ofText? (s : String) : Option Keyword :=
  all.find? fun k => k.text == s

theorem mem_all (k : Keyword) : k ∈ all := by
  cases k <;> decide

end Keyword

/-- Punctuation. -/
inductive Symbol where
  | lparen | rparen | lbrace | rbrace | lbracket | rbracket | langle | rangle
  | comma | semicolon | colon | dot | ellipsis | question | bang | pipe | amp | arrow | eq
  | plus | minus | star | slash | tilde
  deriving DecidableEq, Repr

namespace Symbol

/-- How the symbol is written. -/
def text : Symbol → String
  | lparen => "(" | rparen => ")" | lbrace => "\x7b" | rbrace => "\x7d" | lbracket => "["
  | rbracket => "]" | langle => "<" | rangle => ">" | comma => "," | semicolon => ";"
  | colon => ":" | dot => "." | ellipsis => "..." | question => "?" | bang => "!"
  | pipe => "|" | amp => "&" | arrow => "=>" | eq => "=" | plus => "+" | minus => "-"
  | star => "*" | slash => "/" | tilde => "~"

/-- The name of the symbol in messages. -/
def label : Symbol → String
  | lparen => "LParen" | rparen => "RParen" | lbrace => "LBrace" | rbrace => "RBrace"
  | lbracket => "LBracket" | rbracket => "RBracket" | langle => "LAngle" | rangle => "RAngle"
  | comma => "Comma" | semicolon => "Semicolon" | colon => "Colon" | dot => "Dot"
  | ellipsis => "DotDotDot" | question => "Question" | bang => "Bang" | pipe => "Pipe"
  | amp => "Amp" | arrow => "Arrow" | eq => "Eq" | plus => "Plus" | minus => "Minus"
  | star => "Star" | slash => "Slash" | tilde => "Tilde"

/-- The symbols of one character. -/
def ofChar? (c : Char) : Option Symbol :=
  match c with
  | '(' => some lparen | ')' => some rparen | '\x7b' => some lbrace | '\x7d' => some rbrace
  | '[' => some lbracket | ']' => some rbracket | '<' => some langle | '>' => some rangle
  | ',' => some comma | ';' => some semicolon | ':' => some colon | '.' => some dot
  | '?' => some question | '!' => some bang | '|' => some pipe | '&' => some amp
  | '=' => some eq | '+' => some plus | '-' => some minus | '*' => some star
  | '/' => some slash | '~' => some tilde
  | _ => none

end Symbol

end Ambient
