import Whittle.Check.Shader
import Whittle.Reduction.Expr.ConstantReplacement
import Whittle.Reduction.Expr.IdentityRemoval
import Whittle.Reduction.Expr.OperandPromotion
import Whittle.Reduction.Function.CallInlining
import Whittle.Reduction.Function.FunctionRemoval
import Whittle.Reduction.Function.OutlinedCall
import Whittle.Reduction.Function.ParamRemoval
import Whittle.Reduction.Kind
import Whittle.Reduction.Stmt.BodyPromotion
import Whittle.Reduction.Stmt.ColourWrite
import Whittle.Reduction.Stmt.LoopMerge
import Whittle.Reduction.Stmt.StmtRemoval
import Whittle.Reduction.Stmt.SwitchChain
import Whittle.Reduction.Stmt.Unwrapping
import Whittle.Reduction.Struct.FieldFlattening
import Whittle.Reduction.Struct.FieldRemoval
import Whittle.Reduction.Struct.SoleField
import Whittle.Reduction.Struct.StructRemoval
import Whittle.Reduction.Var.InitInlining
import Whittle.Reduction.Var.VarRemoval
import Whittle.Reduction.Var.VectorSplit

namespace Whittle
namespace Reduction

/-!
# Edits

An edit is one step that makes a shader simpler.  It names its targets by
identifier, so it can be applied to the shader it was found in and to a copy of
it; if its target has gone in the meantime, nothing happens.  Each kind of
simplification has edits of its own.
-/

inductive Edit where
  | loopMerge (edit : LoopMerge)
  | removeStructField (edit : FieldRemoval)
  | destructify (edit : SoleField)
  | unusedStruct (edit : StructRemoval)
  | inlineStructField (edit : FieldFlattening)
  | outlinedStatement (edit : OutlinedCall)
  | declaration (edit : VarRemoval)
  | unwrap (edit : Unwrapping)
  | unswitchify (edit : SwitchChain)
  | vectorization (edit : VectorSplit)
  | function (edit : FunctionRemoval)
  | statement (edit : StmtRemoval)
  | exprToConstant (edit : ConstantReplacement)
  | compoundExprToSubExpr (edit : OperandPromotion)
  | mutation (edit : IdentityRemoval)
  | compoundToBlock (edit : BodyPromotion)
  | inlineInitializer (edit : InitInlining)
  | inlineFunction (edit : CallInlining)
  | liveFragColorWrite (edit : ColourWrite)
  | unusedParam (edit : ParamRemoval)
deriving DecidableEq

namespace Edit

def kind : Edit → Kind
  | .loopMerge _ => .loopMerge
  | .removeStructField _ => .removeStructField
  | .destructify _ => .destructify
  | .unusedStruct _ => .unusedStruct
  | .inlineStructField _ => .inlineStructField
  | .outlinedStatement _ => .outlinedStatement
  | .declaration _ => .declaration
  | .unwrap _ => .unwrap
  | .unswitchify _ => .unswitchify
  | .vectorization _ => .vectorization
  | .function _ => .function
  | .statement _ => .statement
  | .exprToConstant _ => .exprToConstant
  | .compoundExprToSubExpr _ => .compoundExprToSubExpr
  | .mutation _ => .mutation
  | .compoundToBlock _ => .compoundToBlock
  | .inlineInitializer _ => .inlineInitializer
  | .inlineFunction _ => .inlineFunction
  | .liveFragColorWrite _ => .liveFragColorWrite
  | .unusedParam _ => .unusedParam

def apply : Edit → Shader → Shader
  | .loopMerge edit => edit.apply
  | .removeStructField edit => edit.apply
  | .destructify edit => edit.apply
  | .unusedStruct edit => edit.apply
  | .inlineStructField edit => edit.apply
  | .outlinedStatement edit => edit.apply
  | .declaration edit => edit.apply
  | .unwrap edit => edit.apply
  | .unswitchify edit => edit.apply
  | .vectorization edit => edit.apply
  | .function edit => edit.apply
  | .statement edit => edit.apply
  | .exprToConstant edit => edit.apply
  | .compoundExprToSubExpr edit => edit.apply
  | .mutation edit => edit.apply
  | .compoundToBlock edit => edit.apply
  | .inlineInitializer edit => edit.apply
  | .inlineFunction edit => edit.apply
  | .liveFragColorWrite edit => edit.apply
  | .unusedParam edit => edit.apply

/-- The words for an edit. -/
def describe : Edit → String
  | .loopMerge edit => edit.describe
  | .removeStructField edit => edit.describe
  | .destructify edit => edit.describe
  | .unusedStruct edit => edit.describe
  | .inlineStructField edit => edit.describe
  | .outlinedStatement edit => edit.describe
  | .declaration edit => edit.describe
  | .unwrap edit => edit.describe
  | .unswitchify edit => edit.describe
  | .vectorization edit => edit.describe
  | .function edit => edit.describe
  | .statement edit => edit.describe
  | .exprToConstant edit => edit.describe
  | .compoundExprToSubExpr edit => edit.describe
  | .mutation edit => edit.describe
  | .compoundToBlock edit => edit.describe
  | .inlineInitializer edit => edit.describe
  | .inlineFunction edit => edit.describe
  | .liveFragColorWrite edit => edit.describe
  | .unusedParam edit => edit.describe

end Edit

namespace Kind

/-- Whether a search for the kind needs the types of all expressions. -/
def needsTypes : Kind → Bool
  | .removeStructField | .inlineStructField | .vectorization | .exprToConstant
  | .compoundExprToSubExpr | .mutation => true
  | _ => false

/-- The edits of a kind in a shader, given the types of its expressions if the
kind needs them. -/
def editsIn (kind : Kind) (everywhere : Bool) (types : TypeTable) (shader : Shader) : List Edit :=
  match kind with
  | .loopMerge => (LoopMerge.find shader).map .loopMerge
  | .removeStructField => (FieldRemoval.find everywhere types shader).map .removeStructField
  | .destructify => (SoleField.find everywhere shader).map .destructify
  | .unusedStruct => (StructRemoval.find everywhere shader).map .unusedStruct
  | .inlineStructField => (FieldFlattening.find everywhere types shader).map .inlineStructField
  | .outlinedStatement => (OutlinedCall.find everywhere shader).map .outlinedStatement
  | .declaration => (VarRemoval.find everywhere shader).map .declaration
  | .unwrap => (Unwrapping.find everywhere shader).map .unwrap
  | .unswitchify => (SwitchChain.find everywhere shader).map .unswitchify
  | .vectorization => (VectorSplit.find everywhere types shader).map .vectorization
  | .function => (FunctionRemoval.find everywhere shader).map .function
  | .statement => (StmtRemoval.find everywhere shader).map .statement
  | .exprToConstant => (ConstantReplacement.find everywhere types shader).map .exprToConstant
  | .compoundExprToSubExpr =>
      (OperandPromotion.find everywhere types shader).map .compoundExprToSubExpr
  | .mutation => (IdentityRemoval.find types shader).map .mutation
  | .compoundToBlock => (BodyPromotion.find everywhere shader).map .compoundToBlock
  | .inlineInitializer => (InitInlining.find everywhere shader).map .inlineInitializer
  | .inlineFunction => (CallInlining.find everywhere shader).map .inlineFunction
  | .liveFragColorWrite => (ColourWrite.find shader).map .liveFragColorWrite
  | .unusedParam => (ParamRemoval.find everywhere shader).map .unusedParam

/-- Every edit found for a kind is of that kind. -/
theorem kind_of_mem_editsIn {kind : Kind} {everywhere : Bool} {types : TypeTable}
    {shader : Shader} {edit : Edit} (found : edit ∈ kind.editsIn everywhere types shader) :
    edit.kind = kind := by
  cases kind <;> obtain ⟨_, _, rfl⟩ := List.mem_map.1 found <;> rfl

/-- The edits of a kind in a shader, or the problems of a shader that is not
valid if the kind needs types. -/
def find (kind : Kind) (scan : Scan) (shader : Shader) : Except (List Check.Problem) (List Edit) :=
  if kind.needsTypes then
    (shader.check scan.version).map fun types => kind.editsIn scan.everywhere types shader
  else .ok (kind.editsIn scan.everywhere ∅ shader)

end Kind
end Reduction
end Whittle
