/-!
# Types

The types of a declaration file (`Ty`), with the parts that are made of types: signatures,
parameters, and the members of object types and interfaces.
-/

namespace Ambient

/-- A type with a name of its own in the language. -/
inductive Primitive where
  | string | number | boolean | void | null | undefined | any | unknown | never | object
  | symbol | bigint
  deriving DecidableEq, Repr

/-- How the type is written. -/
def Primitive.text : Primitive → String
  | string => "string" | number => "number" | boolean => "boolean" | void => "void"
  | null => "null" | undefined => "undefined" | any => "any" | unknown => "unknown"
  | never => "never" | object => "object" | symbol => "symbol" | bigint => "bigint"

/-- A word before a type that changes its meaning. -/
inductive TypeOperator where
  | readonly | unique
  deriving DecidableEq, Repr

/-- What a mapped type does with a modifier of the properties that it maps. -/
inductive MappedModifier where
  /-- Written with a plus sign. -/
  | add
  /-- Written with a minus sign. -/
  | remove
  /-- Written without a sign. -/
  | preserve
  deriving DecidableEq, Repr

/-- Modifiers of a type parameter. -/
inductive TypeParamModifier where
  /-- Written `in`. -/
  | contravariant
  /-- Written `out`. -/
  | covariant
  | const
  deriving DecidableEq, Repr

/-- Who may use a member of a class. -/
inductive Visibility where
  | everyone
  /-- Written `protected`. -/
  | subclasses
  /-- Written `private`. -/
  | owner
  deriving DecidableEq, Repr

/-- Modifiers of a class member. -/
structure MemberModifiers where
  visibility : Visibility := .everyone
  isStatic : Bool := false
  isAbstract : Bool := false
  deriving DecidableEq, Repr

/-- What an accessor does. -/
inductive AccessorKind where
  | get | set
  deriving DecidableEq, Repr

mutual

/-- A type. -/
inductive Ty where
  /-- A name, possibly dotted, with type arguments. -/
  | named (name : String) (args : List Ty)
  | primitive (p : Primitive)
  | stringLiteral (value : String)
  /-- A number as written, possibly with a minus sign. -/
  | numberLiteral (text : String)
  | booleanLiteral (value : Bool)
  | union (members : List Ty)
  | intersection (members : List Ty)
  | function (sig : Signature) (result : Ty)
  | constructor (isAbstract : Bool) (sig : Signature) (result : Ty)
  | object (members : List Member)
  | array (element : Ty)
  | tuple (elements : List TupleElement)
  /-- The type of a value, given by its dotted name or by the text of an import. -/
  | typeOf (value : String)
  | keyOf (ty : Ty)
  | operator (op : TypeOperator) (ty : Ty)
  | indexAccess (object index : Ty)
  | conditional (check super yes no : Ty)
  /-- A type whose properties range over `constraint`, each renamed to `name` if that is given. -/
  | mapped (key : String) (constraint : Ty) (name : Option Ty) (value : Ty)
      (readonly optional : Option MappedModifier)
  | infer (name : String)
  /-- A template literal as written, backticks included. -/
  | template (text : String)
  /-- A type exported by another module. -/
  | imported (module : String) (qualifier : Option String) (args : List Ty)
  /-- What a function tells about one of its arguments or about its receiver. -/
  | predicate (asserts : Bool) (subject : String) (ty : Option Ty)
  | parenthesized (inner : Ty)
  | this

/-- The type parameters and parameters of something that can be called. The type of the receiver
is not one of the parameters. -/
structure Signature where
  typeParams : List TypeParam
  receiver : Option Ty
  params : List Param

/-- A type parameter. -/
structure TypeParam where
  name : String
  modifiers : List TypeParamModifier
  constraint : Option Ty
  default : Option Ty

/-- A parameter. Its name is an identifier or a destructuring pattern as written. -/
structure Param where
  name : String
  ty : Option Ty
  optional : Bool
  rest : Bool

/-- An element of a tuple type. -/
structure TupleElement where
  name : Option String
  ty : Ty
  optional : Bool
  rest : Bool

/-- A member of an interface or of an object type. -/
structure Member where
  doc : Option String
  shape : MemberShape

/-- What a member of an interface or object type is. -/
inductive MemberShape where
  | property (name : String) (ty : Option Ty) (optional readonly : Bool)
  | method (name : String) (optional : Bool) (sig : Signature) (result : Option Ty)
  | call (sig : Signature) (result : Option Ty)
  | construct (typeParams : List TypeParam) (params : List Param) (result : Option Ty)
  | index (sig : IndexSignature)
  | accessor (a : Accessor)

/-- The type of all properties whose key has a given type. -/
structure IndexSignature where
  key : String
  keyType : Ty
  valueType : Ty
  readonly : Bool
  isStatic : Bool

/-- A property that is read or written by a function. -/
structure Accessor where
  name : String
  kind : AccessorKind
  params : List Param
  result : Option Ty
  modifiers : MemberModifiers

end

instance : Inhabited Ty := ⟨.this⟩

instance : Inhabited Signature := ⟨⟨[], none, []⟩⟩

instance : Inhabited IndexSignature := ⟨⟨"", .this, .this, false, false⟩⟩

instance : Inhabited Accessor := ⟨⟨"", .get, [], none, {}⟩⟩

instance : Inhabited Member := ⟨⟨none, .property "" none false false⟩⟩

end Ambient
