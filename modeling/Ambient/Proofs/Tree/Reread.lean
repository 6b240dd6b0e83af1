import Ambient.Proofs.Token.Documentation
import Ambient.Tree.TyPrinter

/-!
# Types as they are read back

`Ty.reread` is what is read of a printed type: the type with its printed parentheses in it, and
documentation texts without white space at the ends of a single line. It is printed like the type
itself (`Ty.print_reread`).

`Ty.clear` tells whether a type is read back at all. Inside the `extends` operand of a conditional
type the word `extends` is not taken up again before the next bracket, but the printer writes no
parentheses around a conditional type behind an arrow or in a parameter there.
-/

namespace Ambient

/-- A type in parentheses, if the condition holds. -/
def Ty.wrapped (c : Bool) (t : Ty) : Ty :=
  if c then .parenthesized t else t

/-! ## What is read back -/

mutual

/-- A type with its printed parentheses. -/
def Ty.reread : Ty → Ty
  | .named name args => .named name (rereadTys args)
  | .primitive p => .primitive p
  | .stringLiteral s => .stringLiteral s
  | .numberLiteral text => .numberLiteral text
  | .booleanLiteral b => .booleanLiteral b
  | .union ts => .union (rereadOperands Ty.looserThanUnion ts)
  | .intersection ts => .intersection (rereadOperands (fun t => t.looserThanUnion || t.isUnion) ts)
  | .function sig result => .function sig.reread result.reread
  | .constructor isAbstract sig result => .constructor isAbstract sig.reread result.reread
  | .object members => .object (rereadMembers members)
  | .array t => .array (t.reread.wrapped t.looserThanPostfix)
  | .tuple es => .tuple (rereadElements es)
  | .typeOf value => .typeOf value
  | .keyOf t => .keyOf (t.reread.wrapped t.looserThanPostfix)
  | .operator op t => .operator op (t.reread.wrapped t.looserThanPostfix)
  | .indexAccess object index =>
    .indexAccess (object.reread.wrapped object.looserThanPostfix) index.reread
  | .conditional check super yes no =>
    .conditional (check.reread.wrapped check.looserThanUnion)
      (super.reread.wrapped super.isConditional) yes.reread no.reread
  | .mapped key constraint name value readonly optional =>
    .mapped key constraint.reread (rereadOpt name) value.reread readonly optional
  | .infer name => .infer name
  | .template text => .template text
  | .imported module qualifier args => .imported module qualifier (rereadTys args)
  | .predicate asserts subject ty => .predicate asserts subject (rereadOpt ty)
  | .parenthesized t => .parenthesized t.reread
  | .this => .this

/-- Each type of a list. -/
def rereadTys : List Ty → List Ty
  | [] => []
  | t :: ts => t.reread :: rereadTys ts

/-- Each type of a list, in parentheses where `loose` says so. -/
def rereadOperands (loose : Ty → Bool) : List Ty → List Ty
  | [] => []
  | t :: ts => t.reread.wrapped (loose t) :: rereadOperands loose ts

/-- A type that may be missing. -/
def rereadOpt : Option Ty → Option Ty
  | none => none
  | some t => some t.reread

/-- Type parameters and parameters. -/
def Signature.reread : Signature → Signature
  | ⟨typeParams, receiver, params⟩ =>
    ⟨rereadTypeParams typeParams, rereadOpt receiver, rereadParams params⟩

/-- Each type parameter of a list. -/
def rereadTypeParams : List TypeParam → List TypeParam
  | [] => []
  | p :: ps => p.reread :: rereadTypeParams ps

/-- A type parameter. -/
def TypeParam.reread : TypeParam → TypeParam
  | ⟨name, modifiers, constraint, default⟩ =>
    ⟨name, modifiers, rereadOpt constraint, rereadOpt default⟩

/-- Each parameter of a list. -/
def rereadParams : List Param → List Param
  | [] => []
  | p :: ps => p.reread :: rereadParams ps

/-- A parameter. -/
def Param.reread : Param → Param
  | ⟨name, ty, optional, rest⟩ => ⟨name, rereadOpt ty, optional, rest⟩

/-- Each element of a tuple. -/
def rereadElements : List TupleElement → List TupleElement
  | [] => []
  | e :: es => e.reread :: rereadElements es

/-- An element of a tuple. -/
def TupleElement.reread : TupleElement → TupleElement
  | ⟨name, ty, optional, rest⟩ => ⟨name, ty.reread, optional, rest⟩

/-- Each member of a list. -/
def rereadMembers : List Member → List Member
  | [] => []
  | m :: ms => m.reread :: rereadMembers ms

/-- A member. -/
def Member.reread : Member → Member
  | ⟨doc, shape⟩ => ⟨doc.map rereadDoc, shape.reread⟩

/-- A member without its documentation. -/
def MemberShape.reread : MemberShape → MemberShape
  | .property name ty optional readonly => .property name (rereadOpt ty) optional readonly
  | .method name optional sig result => .method name optional sig.reread (rereadOpt result)
  | .call sig result => .call sig.reread (rereadOpt result)
  | .construct typeParams params result =>
    .construct (rereadTypeParams typeParams) (rereadParams params) (rereadOpt result)
  | .index sig => .index sig.reread
  | .accessor a => .accessor a.reread

/-- An index signature. -/
def IndexSignature.reread : IndexSignature → IndexSignature
  | ⟨key, keyType, valueType, readonly, isStatic⟩ =>
    ⟨key, keyType.reread, valueType.reread, readonly, isStatic⟩

/-- An accessor. -/
def Accessor.reread : Accessor → Accessor
  | ⟨name, kind, params, result, modifiers⟩ =>
    ⟨name, kind, rereadParams params, rereadOpt result, modifiers⟩

end

/-! ## Whether it is read back -/

mutual

/-- Whether a type is read back, possibly in the `extends` operand of a conditional type. -/
def Ty.clear (inSuper : Bool) : Ty → Bool
  | .named _ args => clearTys args
  | .primitive _ | .stringLiteral _ | .numberLiteral _ | .booleanLiteral _ => true
  | .union ts => clearOperands inSuper Ty.looserThanUnion ts
  | .intersection ts => clearOperands inSuper (fun t => t.looserThanUnion || t.isUnion) ts
  | .function sig result => sig.clear inSuper && result.clear inSuper
  | .constructor _ sig result => sig.clear inSuper && result.clear inSuper
  | .object members => clearMembers members
  | .array t => t.clear (inSuper && !t.looserThanPostfix)
  | .tuple es => clearElements es
  | .typeOf _ => true
  | .keyOf t => t.clear (inSuper && !t.looserThanPostfix)
  | .operator _ t => t.clear (inSuper && !t.looserThanPostfix)
  | .indexAccess object index =>
    object.clear (inSuper && !object.looserThanPostfix) && index.clear false
  | .conditional check super yes no =>
    !inSuper && check.clear false && super.clear (!super.isConditional) && yes.clear false &&
      no.clear false
  | .mapped _ constraint name value _ _ =>
    constraint.clear false && clearOpt false name && value.clear false
  | .infer _ => true
  | .template _ => true
  | .imported _ _ args => clearTys args
  | .predicate _ _ ty => clearOpt inSuper ty
  | .parenthesized t => t.clear false
  | .this => true

/-- Each type of a list in brackets. -/
def clearTys : List Ty → Bool
  | [] => true
  | t :: ts => t.clear false && clearTys ts

/-- Each type of a list, in parentheses where `loose` says so. -/
def clearOperands (inSuper : Bool) (loose : Ty → Bool) : List Ty → Bool
  | [] => true
  | t :: ts => t.clear (inSuper && !loose t) && clearOperands inSuper loose ts

/-- A type that may be missing. -/
def clearOpt (inSuper : Bool) : Option Ty → Bool
  | none => true
  | some t => t.clear inSuper

/-- Type parameters and parameters. -/
def Signature.clear (inSuper : Bool) : Signature → Bool
  | ⟨typeParams, receiver, params⟩ =>
    clearTypeParams inSuper typeParams && (clearOpt inSuper receiver && clearParams inSuper params)

/-- Each type parameter of a list. -/
def clearTypeParams (inSuper : Bool) : List TypeParam → Bool
  | [] => true
  | p :: ps => p.clear inSuper && clearTypeParams inSuper ps

/-- A type parameter. -/
def TypeParam.clear (inSuper : Bool) : TypeParam → Bool
  | ⟨_, _, constraint, default⟩ => clearOpt inSuper constraint && clearOpt inSuper default

/-- Each parameter of a list. -/
def clearParams (inSuper : Bool) : List Param → Bool
  | [] => true
  | p :: ps => p.clear inSuper && clearParams inSuper ps

/-- A parameter. -/
def Param.clear (inSuper : Bool) : Param → Bool
  | ⟨_, ty, _, _⟩ => clearOpt inSuper ty

/-- Each element of a tuple. -/
def clearElements : List TupleElement → Bool
  | [] => true
  | e :: es => e.clear && clearElements es

/-- An element of a tuple. -/
def TupleElement.clear : TupleElement → Bool
  | ⟨_, ty, _, _⟩ => ty.clear false

/-- Each member of a list. -/
def clearMembers : List Member → Bool
  | [] => true
  | m :: ms => m.clear && clearMembers ms

/-- A member. -/
def Member.clear : Member → Bool
  | ⟨_, shape⟩ => shape.clear

/-- A member without its documentation. -/
def MemberShape.clear : MemberShape → Bool
  | .property _ ty _ _ => clearOpt false ty
  | .method _ _ sig result => sig.clear false && clearOpt false result
  | .call sig result => sig.clear false && clearOpt false result
  | .construct typeParams params result =>
    clearTypeParams false typeParams && clearParams false params && clearOpt false result
  | .index sig => sig.clear
  | .accessor a => a.clear

/-- An index signature. -/
def IndexSignature.clear : IndexSignature → Bool
  | ⟨_, keyType, valueType, _, _⟩ => keyType.clear false && valueType.clear false

/-- An accessor. -/
def Accessor.clear : Accessor → Bool
  | ⟨_, _, params, result, _⟩ => clearParams false params && clearOpt false result

end

/-! ## Lists of parts -/

theorem rereadTys_eq_map (ts : List Ty) : rereadTys ts = ts.map Ty.reread := by
  induction ts with
  | nil => rfl
  | cons t ts ih => rw [rereadTys, ih, List.map_cons]

theorem rereadOperands_eq_map (loose : Ty → Bool) (ts : List Ty) :
    rereadOperands loose ts = ts.map fun t => t.reread.wrapped (loose t) := by
  induction ts with
  | nil => rfl
  | cons t ts ih => rw [rereadOperands, ih, List.map_cons]

theorem rereadTypeParams_eq_map (ps : List TypeParam) :
    rereadTypeParams ps = ps.map TypeParam.reread := by
  induction ps with
  | nil => rfl
  | cons p ps ih => rw [rereadTypeParams, ih, List.map_cons]

theorem rereadParams_eq_map (ps : List Param) : rereadParams ps = ps.map Param.reread := by
  induction ps with
  | nil => rfl
  | cons p ps ih => rw [rereadParams, ih, List.map_cons]

theorem rereadElements_eq_map (es : List TupleElement) :
    rereadElements es = es.map TupleElement.reread := by
  induction es with
  | nil => rfl
  | cons e es ih => rw [rereadElements, ih, List.map_cons]

theorem rereadMembers_eq_map (ms : List Member) : rereadMembers ms = ms.map Member.reread := by
  induction ms with
  | nil => rfl
  | cons m ms ih => rw [rereadMembers, ih, List.map_cons]

theorem clearTys_eq_all (ts : List Ty) : clearTys ts = ts.all (Ty.clear false) := by
  induction ts with
  | nil => rfl
  | cons t ts ih => rw [clearTys, ih, List.all_cons]

theorem clearOperands_eq_all (inSuper : Bool) (loose : Ty → Bool) (ts : List Ty) :
    clearOperands inSuper loose ts = ts.all fun t => t.clear (inSuper && !loose t) := by
  induction ts with
  | nil => rfl
  | cons t ts ih => rw [clearOperands, ih, List.all_cons]

theorem clearTypeParams_eq_all (inSuper : Bool) (ps : List TypeParam) :
    clearTypeParams inSuper ps = ps.all (TypeParam.clear inSuper) := by
  induction ps with
  | nil => rfl
  | cons p ps ih => rw [clearTypeParams, ih, List.all_cons]

theorem clearParams_eq_all (inSuper : Bool) (ps : List Param) :
    clearParams inSuper ps = ps.all (Param.clear inSuper) := by
  induction ps with
  | nil => rfl
  | cons p ps ih => rw [clearParams, ih, List.all_cons]

theorem clearElements_eq_all (es : List TupleElement) :
    clearElements es = es.all TupleElement.clear := by
  induction es with
  | nil => rfl
  | cons e es ih => rw [clearElements, ih, List.all_cons]

theorem clearMembers_eq_all (ms : List Member) : clearMembers ms = ms.all Member.clear := by
  induction ms with
  | nil => rfl
  | cons m ms ih => rw [clearMembers, ih, List.all_cons]

/-! ## Printing what is read back -/

namespace Ty

@[simp] theorem print_wrapped (level : Nat) (c : Bool) (t : Ty) :
    (t.wrapped c).print level = parens c (t.print level) := by
  cases c
  · rfl
  · rw [wrapped, if_pos rfl, print]
    rfl

@[simp] theorem looserThanUnion_reread (t : Ty) :
    t.reread.looserThanUnion = t.looserThanUnion := by
  cases t <;> rfl

@[simp] theorem looserThanPostfix_reread (t : Ty) :
    t.reread.looserThanPostfix = t.looserThanPostfix := by
  cases t <;> rfl

@[simp] theorem isUnion_reread (t : Ty) : t.reread.isUnion = t.isUnion := by
  cases t <;> rfl

@[simp] theorem isConditional_reread (t : Ty) : t.reread.isConditional = t.isConditional := by
  cases t <;> rfl

/-- An operand in its parentheses needs no more of them. -/
theorem parens_wrapped (level : Nat) {loose : Ty → Bool} {t : Ty}
    (h : ∀ t, loose (.parenthesized t) = false) (hr : loose t.reread = loose t) :
    parens (loose (t.reread.wrapped (loose t))) ((t.reread.wrapped (loose t)).print level) =
      parens (loose t) (t.reread.print level) := by
  rw [print_wrapped]
  cases hl : loose t
  · simp [wrapped, hr, hl, parens]
  · simp [wrapped, h, parens]

end Ty

theorem isEmpty_rereadMembers (ms : List Member) :
    (rereadMembers ms).isEmpty = ms.isEmpty := by
  cases ms <;> rfl

theorem any_doc_rereadMembers (ms : List Member) :
    ((rereadMembers ms).any fun m => m.doc.isSome) = ms.any fun m => m.doc.isSome := by
  induction ms with
  | nil => rfl
  | cons m ms ih =>
    obtain ⟨doc, shape⟩ := m
    rw [rereadMembers, Member.reread, List.any_cons, List.any_cons, ih]
    cases doc <;> rfl

theorem printDoc?_rereadDoc (level : Nat) (doc : Option String) :
    printDoc? level (doc.map rereadDoc) = printDoc? level doc := by
  cases doc with
  | none => rfl
  | some d => rw [Option.map_some, printDoc?, printDoc?, Option.elim_some, Option.elim_some,
      printDoc_rereadDoc]

mutual

/-- **What is read back of a type is printed like the type.** -/
theorem Ty.print_reread (level : Nat) : (t : Ty) → t.reread.print level = t.print level
  | .named name args => by rw [Ty.reread, Ty.print, Ty.print, printTys_reread level args]
  | .primitive _ | .stringLiteral _ | .numberLiteral _ | .booleanLiteral _ => rfl
  | .union ts => by
    rw [Ty.reread, Ty.print, Ty.print,
      printOperands_reread level ts (fun _ => rfl) fun _ => Ty.looserThanUnion_reread _]
  | .intersection ts => by
    rw [Ty.reread, Ty.print, Ty.print,
      printOperands_reread level ts (fun _ => rfl) fun t => by simp]
  | .function sig result => by
    rw [Ty.reread, Ty.print, Ty.print, sig.print_reread, result.print_reread level]
  | .constructor isAbstract sig result => by
    rw [Ty.reread, Ty.print, Ty.print, sig.print_reread, result.print_reread level]
  | .object members => by
    rw [Ty.reread, Ty.print, Ty.print, isEmpty_rereadMembers, any_doc_rereadMembers,
      printMembers_reread level members, printMemberLines_reread (level + 1) members]
  | .array t => by
    rw [Ty.reread, Ty.print, Ty.print, Ty.parens_wrapped level (fun _ => rfl) (by simp),
      t.print_reread level]
  | .tuple es => by rw [Ty.reread, Ty.print, Ty.print, printElements_reread level es]
  | .typeOf _ => rfl
  | .keyOf t => by
    rw [Ty.reread, Ty.print, Ty.print, Ty.parens_wrapped level (fun _ => rfl) (by simp),
      t.print_reread level]
  | .operator op t => by
    rw [Ty.reread, Ty.print, Ty.print, Ty.parens_wrapped level (fun _ => rfl) (by simp),
      t.print_reread level]
  | .indexAccess object index => by
    rw [Ty.reread, Ty.print, Ty.print, Ty.parens_wrapped level (fun _ => rfl) (by simp),
      object.print_reread level, index.print_reread level]
  | .conditional check super yes no => by
    rw [Ty.reread, Ty.print, Ty.print, Ty.parens_wrapped level (fun _ => rfl) (by simp),
      Ty.parens_wrapped level (fun _ => rfl) (by simp), check.print_reread level,
      super.print_reread level, yes.print_reread level, no.print_reread level]
  | .mapped key constraint name value readonly optional => by
    rw [Ty.reread, Ty.print, Ty.print, constraint.print_reread level,
      printOpt_reread level " as " name, value.print_reread level]
  | .infer _ | .template _ => rfl
  | .imported module qualifier args => by
    rw [Ty.reread, Ty.print, Ty.print, printTys_reread level args]
  | .predicate asserts subject ty => by
    rw [Ty.reread, Ty.print, Ty.print, printOpt_reread level " is " ty]
  | .parenthesized t => by rw [Ty.reread, Ty.print, Ty.print, t.print_reread level]
  | .this => rfl

theorem printTys_reread (level : Nat) : (ts : List Ty) →
    printTys level (rereadTys ts) = printTys level ts
  | [] => rfl
  | t :: ts => by
    rw [rereadTys, printTys, printTys, t.print_reread level, printTys_reread level ts]

theorem printOperands_reread (level : Nat) {loose : Ty → Bool} : (ts : List Ty) →
    (∀ t, loose (.parenthesized t) = false) → (∀ t, loose t.reread = loose t) →
    printOperands level loose (rereadOperands loose ts) = printOperands level loose ts
  | [], _, _ => rfl
  | t :: ts, h, hr => by
    rw [rereadOperands, printOperands, printOperands, Ty.parens_wrapped level h (hr t),
      t.print_reread level, printOperands_reread level ts h hr]

theorem printOpt_reread (level : Nat) (before : String) : (t : Option Ty) →
    printOpt level before (rereadOpt t) = printOpt level before t
  | none => rfl
  | some t => by rw [rereadOpt, printOpt, printOpt, t.print_reread level]

theorem Signature.print_reread : (sig : Signature) → sig.reread.print = sig.print
  | ⟨typeParams, receiver, params⟩ => by
    rw [Signature.reread, Signature.print, Signature.print, printTypeParams_reread typeParams,
      printReceiver_reread receiver, printParams_reread params]

theorem printReceiver_reread : (t : Option Ty) →
    printReceiver (rereadOpt t) = printReceiver t
  | none => rfl
  | some t => by rw [rereadOpt, printReceiver, printReceiver, t.print_reread 0]

theorem printTypeParams_reread : (ps : List TypeParam) →
    printTypeParams (rereadTypeParams ps) = printTypeParams ps
  | [] => rfl
  | ⟨name, modifiers, constraint, default⟩ :: ps => by
    rw [rereadTypeParams, TypeParam.reread, printTypeParams, printTypeParams,
      printOpt_reread 0 _ constraint, printOpt_reread 0 _ default, printTypeParams_reread ps]

theorem printParams_reread : (ps : List Param) →
    printParams (rereadParams ps) = printParams ps
  | [] => rfl
  | ⟨name, ty, optional, rest⟩ :: ps => by
    rw [rereadParams, Param.reread, printParams, printParams, printOpt_reread 0 _ ty,
      printParams_reread ps]

theorem printElements_reread (level : Nat) : (es : List TupleElement) →
    printElements level (rereadElements es) = printElements level es
  | [] => rfl
  | ⟨name, ty, optional, rest⟩ :: es => by
    simp only [rereadElements, TupleElement.reread, printElements, ty.print_reread level,
      printElements_reread level es]

theorem printMembers_reread (level : Nat) : (ms : List Member) →
    printMembers level (rereadMembers ms) = printMembers level ms
  | [] => rfl
  | ⟨doc, shape⟩ :: ms => by
    rw [rereadMembers, Member.reread, printMembers, printMembers, shape.print_reread level,
      printMembers_reread level ms]

theorem printMemberLines_reread (level : Nat) : (ms : List Member) →
    printMemberLines level (rereadMembers ms) = printMemberLines level ms
  | [] => rfl
  | ⟨doc, shape⟩ :: ms => by
    rw [rereadMembers, Member.reread, printMemberLines, printMemberLines, printDoc?_rereadDoc,
      shape.print_reread level, printMemberLines_reread level ms]

theorem MemberShape.print_reread (level : Nat) : (m : MemberShape) →
    m.reread.print level = m.print level
  | .property name ty optional readonly => by
    rw [MemberShape.reread, MemberShape.print, MemberShape.print, printOpt_reread level _ ty]
  | .method name optional sig result => by
    rw [MemberShape.reread, MemberShape.print, MemberShape.print, sig.print_reread,
      printOpt_reread 0 _ result]
  | .call sig result => by
    rw [MemberShape.reread, MemberShape.print, MemberShape.print, sig.print_reread,
      printOpt_reread 0 _ result]
  | .construct typeParams params result => by
    rw [MemberShape.reread, MemberShape.print, MemberShape.print,
      printTypeParams_reread typeParams, printParams_reread params, printOpt_reread 0 _ result]
  | .index sig => by
    rw [MemberShape.reread, MemberShape.print, MemberShape.print, sig.print_reread]
  | .accessor a => by
    rw [MemberShape.reread, MemberShape.print, MemberShape.print, a.print_reread]

theorem IndexSignature.print_reread : (sig : IndexSignature) → sig.reread.print = sig.print
  | ⟨key, keyType, valueType, readonly, isStatic⟩ => by
    rw [IndexSignature.reread, IndexSignature.print, IndexSignature.print, keyType.print_reread 0,
      valueType.print_reread 0]

theorem Accessor.print_reread : (a : Accessor) → a.reread.print = a.print
  | ⟨name, kind, params, result, modifiers⟩ => by
    rw [Accessor.reread, Accessor.print, Accessor.print, printParams_reread params,
      printOpt_reread 0 _ result]

end

end Ambient
