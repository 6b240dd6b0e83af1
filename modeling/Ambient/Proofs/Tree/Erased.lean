import Ambient.Proofs.Tree.Reread

/-!
# Types without parentheses

`Ty.erased` leaves out every pair of parentheses around a type. What is read back of a type differs
from the type in nothing else (`Ty.erased_reread`), white space at the ends of documentation on a
single line apart.
-/

namespace Ambient

open Text (lines trim trim_trim length_lines_le not_mem_trim)

mutual

/-- A type without any parentheses around types. Documentation has the text that is read back. -/
def Ty.erased : Ty → Ty
  | .named name args => .named name (erasedTys args)
  | .primitive p => .primitive p
  | .stringLiteral s => .stringLiteral s
  | .numberLiteral text => .numberLiteral text
  | .booleanLiteral b => .booleanLiteral b
  | .union ts => .union (erasedTys ts)
  | .intersection ts => .intersection (erasedTys ts)
  | .function sig result => .function sig.erased result.erased
  | .constructor isAbstract sig result => .constructor isAbstract sig.erased result.erased
  | .object members => .object (erasedMembers members)
  | .array t => .array t.erased
  | .tuple es => .tuple (erasedElements es)
  | .typeOf value => .typeOf value
  | .keyOf t => .keyOf t.erased
  | .operator op t => .operator op t.erased
  | .indexAccess object index => .indexAccess object.erased index.erased
  | .conditional check super yes no =>
    .conditional check.erased super.erased yes.erased no.erased
  | .mapped key constraint name value readonly optional =>
    .mapped key constraint.erased (erasedOpt name) value.erased readonly optional
  | .infer name => .infer name
  | .template text => .template text
  | .imported module qualifier args => .imported module qualifier (erasedTys args)
  | .predicate asserts subject ty => .predicate asserts subject (erasedOpt ty)
  | .parenthesized t => t.erased
  | .this => .this

/-- Each type of a list. -/
def erasedTys : List Ty → List Ty
  | [] => []
  | t :: ts => t.erased :: erasedTys ts

/-- A type that may be missing. -/
def erasedOpt : Option Ty → Option Ty
  | none => none
  | some t => some t.erased

/-- Type parameters and parameters. -/
def Signature.erased : Signature → Signature
  | ⟨typeParams, receiver, params⟩ =>
    ⟨erasedTypeParams typeParams, erasedOpt receiver, erasedParams params⟩

/-- Each type parameter of a list. -/
def erasedTypeParams : List TypeParam → List TypeParam
  | [] => []
  | ⟨name, modifiers, constraint, default⟩ :: ps =>
    ⟨name, modifiers, erasedOpt constraint, erasedOpt default⟩ :: erasedTypeParams ps

/-- Each parameter of a list. -/
def erasedParams : List Param → List Param
  | [] => []
  | ⟨name, ty, optional, rest⟩ :: ps => ⟨name, erasedOpt ty, optional, rest⟩ :: erasedParams ps

/-- Each element of a tuple. -/
def erasedElements : List TupleElement → List TupleElement
  | [] => []
  | ⟨name, ty, optional, rest⟩ :: es => ⟨name, ty.erased, optional, rest⟩ :: erasedElements es

/-- Each member of a list. -/
def erasedMembers : List Member → List Member
  | [] => []
  | ⟨doc, shape⟩ :: ms => ⟨doc.map rereadDoc, shape.erased⟩ :: erasedMembers ms

/-- A member without its documentation. -/
def MemberShape.erased : MemberShape → MemberShape
  | .property name ty optional readonly => .property name (erasedOpt ty) optional readonly
  | .method name optional sig result => .method name optional sig.erased (erasedOpt result)
  | .call sig result => .call sig.erased (erasedOpt result)
  | .construct typeParams params result =>
    .construct (erasedTypeParams typeParams) (erasedParams params) (erasedOpt result)
  | .index sig => .index sig.erased
  | .accessor a => .accessor a.erased

/-- An index signature. -/
def IndexSignature.erased : IndexSignature → IndexSignature
  | ⟨key, keyType, valueType, readonly, isStatic⟩ =>
    ⟨key, keyType.erased, valueType.erased, readonly, isStatic⟩

/-- An accessor. -/
def Accessor.erased : Accessor → Accessor
  | ⟨name, kind, params, result, modifiers⟩ =>
    ⟨name, kind, erasedParams params, erasedOpt result, modifiers⟩

end

@[simp] theorem Ty.erased_wrapped (c : Bool) (t : Ty) : (t.wrapped c).erased = t.erased := by
  cases c
  · rfl
  · rw [wrapped, if_pos rfl, erased]

/-- A documentation text is settled once it has been read back. -/
theorem rereadDoc_rereadDoc (d : String) : rereadDoc (rereadDoc d) = rereadDoc d := by
  by_cases h : (lines d.toList).length ≤ 1
  · have hd : rereadDoc d = String.ofList (trim d.toList) := if_pos h
    rw [hd, rereadDoc, String.toList_ofList, if_pos (length_lines_le (not_mem_trim h)), trim_trim]
  · have hd : rereadDoc d = d := if_neg h
    rw [hd, hd]

theorem map_rereadDoc (doc : Option String) :
    (doc.map rereadDoc).map rereadDoc = doc.map rereadDoc := by
  cases doc with
  | none => rfl
  | some d => rw [Option.map_some, Option.map_some, rereadDoc_rereadDoc]

mutual

/-- **What is read back of a type is the type up to parentheses.** -/
theorem Ty.erased_reread : (t : Ty) → t.reread.erased = t.erased
  | .named name args => by rw [Ty.reread, Ty.erased, Ty.erased, erasedTys_reread args]
  | .primitive _ | .stringLiteral _ | .numberLiteral _ | .booleanLiteral _ => rfl
  | .union ts => by rw [Ty.reread, Ty.erased, Ty.erased, erasedTys_operands _ ts]
  | .intersection ts => by rw [Ty.reread, Ty.erased, Ty.erased, erasedTys_operands _ ts]
  | .function sig result => by
    rw [Ty.reread, Ty.erased, Ty.erased, sig.erased_reread, result.erased_reread]
  | .constructor isAbstract sig result => by
    rw [Ty.reread, Ty.erased, Ty.erased, sig.erased_reread, result.erased_reread]
  | .object members => by rw [Ty.reread, Ty.erased, Ty.erased, erasedMembers_reread members]
  | .array t => by rw [Ty.reread, Ty.erased, Ty.erased, Ty.erased_wrapped, t.erased_reread]
  | .tuple es => by rw [Ty.reread, Ty.erased, Ty.erased, erasedElements_reread es]
  | .typeOf _ => rfl
  | .keyOf t => by rw [Ty.reread, Ty.erased, Ty.erased, Ty.erased_wrapped, t.erased_reread]
  | .operator op t => by rw [Ty.reread, Ty.erased, Ty.erased, Ty.erased_wrapped, t.erased_reread]
  | .indexAccess object index => by
    rw [Ty.reread, Ty.erased, Ty.erased, Ty.erased_wrapped, object.erased_reread,
      index.erased_reread]
  | .conditional check super yes no => by
    rw [Ty.reread, Ty.erased, Ty.erased, Ty.erased_wrapped, Ty.erased_wrapped,
      check.erased_reread, super.erased_reread, yes.erased_reread, no.erased_reread]
  | .mapped key constraint name value readonly optional => by
    rw [Ty.reread, Ty.erased, Ty.erased, constraint.erased_reread, erasedOpt_reread name,
      value.erased_reread]
  | .infer _ | .template _ => rfl
  | .imported module qualifier args => by
    rw [Ty.reread, Ty.erased, Ty.erased, erasedTys_reread args]
  | .predicate asserts subject ty => by rw [Ty.reread, Ty.erased, Ty.erased, erasedOpt_reread ty]
  | .parenthesized t => by rw [Ty.reread, Ty.erased, Ty.erased, t.erased_reread]
  | .this => rfl

theorem erasedTys_reread : (ts : List Ty) → erasedTys (rereadTys ts) = erasedTys ts
  | [] => rfl
  | t :: ts => by
    rw [rereadTys, erasedTys, erasedTys, t.erased_reread, erasedTys_reread ts]

theorem erasedTys_operands (loose : Ty → Bool) : (ts : List Ty) →
    erasedTys (rereadOperands loose ts) = erasedTys ts
  | [] => rfl
  | t :: ts => by
    rw [rereadOperands, erasedTys, erasedTys, Ty.erased_wrapped, t.erased_reread,
      erasedTys_operands loose ts]

theorem erasedOpt_reread : (t : Option Ty) → erasedOpt (rereadOpt t) = erasedOpt t
  | none => rfl
  | some t => by rw [rereadOpt, erasedOpt, erasedOpt, t.erased_reread]

theorem Signature.erased_reread : (sig : Signature) → sig.reread.erased = sig.erased
  | ⟨typeParams, receiver, params⟩ => by
    rw [Signature.reread, Signature.erased, Signature.erased, erasedTypeParams_reread typeParams,
      erasedOpt_reread receiver, erasedParams_reread params]

theorem erasedTypeParams_reread : (ps : List TypeParam) →
    erasedTypeParams (rereadTypeParams ps) = erasedTypeParams ps
  | [] => rfl
  | ⟨name, modifiers, constraint, default⟩ :: ps => by
    rw [rereadTypeParams, TypeParam.reread, erasedTypeParams, erasedTypeParams,
      erasedOpt_reread constraint, erasedOpt_reread default, erasedTypeParams_reread ps]

theorem erasedParams_reread : (ps : List Param) →
    erasedParams (rereadParams ps) = erasedParams ps
  | [] => rfl
  | ⟨name, ty, optional, rest⟩ :: ps => by
    rw [rereadParams, Param.reread, erasedParams, erasedParams, erasedOpt_reread ty,
      erasedParams_reread ps]

theorem erasedElements_reread : (es : List TupleElement) →
    erasedElements (rereadElements es) = erasedElements es
  | [] => rfl
  | ⟨name, ty, optional, rest⟩ :: es => by
    rw [rereadElements, TupleElement.reread, erasedElements, erasedElements, ty.erased_reread,
      erasedElements_reread es]

theorem erasedMembers_reread : (ms : List Member) →
    erasedMembers (rereadMembers ms) = erasedMembers ms
  | [] => rfl
  | ⟨doc, shape⟩ :: ms => by
    rw [rereadMembers, Member.reread, erasedMembers, erasedMembers, map_rereadDoc,
      shape.erased_reread, erasedMembers_reread ms]

theorem MemberShape.erased_reread : (m : MemberShape) → m.reread.erased = m.erased
  | .property name ty optional readonly => by
    rw [MemberShape.reread, MemberShape.erased, MemberShape.erased, erasedOpt_reread ty]
  | .method name optional sig result => by
    rw [MemberShape.reread, MemberShape.erased, MemberShape.erased, sig.erased_reread,
      erasedOpt_reread result]
  | .call sig result => by
    rw [MemberShape.reread, MemberShape.erased, MemberShape.erased, sig.erased_reread,
      erasedOpt_reread result]
  | .construct typeParams params result => by
    rw [MemberShape.reread, MemberShape.erased, MemberShape.erased,
      erasedTypeParams_reread typeParams, erasedParams_reread params, erasedOpt_reread result]
  | .index sig => by
    rw [MemberShape.reread, MemberShape.erased, MemberShape.erased, sig.erased_reread]
  | .accessor a => by
    rw [MemberShape.reread, MemberShape.erased, MemberShape.erased, a.erased_reread]

theorem IndexSignature.erased_reread : (sig : IndexSignature) → sig.reread.erased = sig.erased
  | ⟨key, keyType, valueType, readonly, isStatic⟩ => by
    rw [IndexSignature.reread, IndexSignature.erased, IndexSignature.erased,
      keyType.erased_reread, valueType.erased_reread]

theorem Accessor.erased_reread : (a : Accessor) → a.reread.erased = a.erased
  | ⟨name, kind, params, result, modifiers⟩ => by
    rw [Accessor.reread, Accessor.erased, Accessor.erased, erasedParams_reread params,
      erasedOpt_reread result]

end

end Ambient
