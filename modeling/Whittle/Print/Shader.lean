import Whittle.Print.Stmt
import Whittle.Syntax.Shader

namespace Whittle

/-!
# Writing shaders

The text of a shader names its version first and then gives each declaration in
order.  The text depends on the tree alone and not on identifiers, so trees that
differ in nothing else have one text.
-/

def Field.line (field : Field) : String :=
  indent 1 ++ field.ty.text ++ " " ++ field.name ++ ";\n"

def Param.text (param : Param) : String :=
  param.ty.text ++ " " ++ param.name

def Function.text (function : Function) : String :=
  function.returnTy.text ++ " " ++ function.name ++
    "(" ++ ", ".intercalate (function.params.map Param.text) ++ ") \x7b\n" ++
    Stmt.linesOfList 1 function.body.stmts ++ "\x7d\n"

def Decl.text : Decl → String
  | .precision decl => "precision " ++ decl.precision.keyword ++ " " ++ decl.ty.text ++ ";\n"
  | .struct decl =>
      "struct " ++ decl.name ++ " \x7b\n" ++ String.join (decl.fields.map Field.line) ++ "\x7d;\n"
  | .global var => var.text ++ "\n"
  | .function f => f.text

def Shader.text (shader : Shader) : String :=
  "#version " ++ shader.version.text ++ "\n" ++ String.join (shader.decls.map Decl.text)

end Whittle
