import Whittle.Version

namespace Whittle
namespace Reduction

/-!
# Kinds of simplification, and how to look for them

There are twenty kinds of simplification.  A search looks for them one kind
after the other, either in injected code alone or everywhere.
-/

/-- How to search. -/
structure Scan where
  version : Version
  /-- Whether all code counts, and not only injected code. -/
  everywhere : Bool
deriving DecidableEq

inductive Kind where
  | loopMerge
  | removeStructField
  | destructify
  | unusedStruct
  | inlineStructField
  | outlinedStatement
  | declaration
  | unwrap
  | unswitchify
  | vectorization
  | function
  | statement
  | exprToConstant
  | compoundExprToSubExpr
  | mutation
  | compoundToBlock
  | inlineInitializer
  | inlineFunction
  | liveFragColorWrite
  | unusedParam
deriving DecidableEq

namespace Kind

/-- All kinds, in the order in which a full search goes through them. -/
def all : List Kind :=
  [.loopMerge, .removeStructField, .destructify, .unusedStruct, .inlineStructField,
   .outlinedStatement, .declaration, .unwrap, .unswitchify, .vectorization, .function,
   .statement, .exprToConstant, .compoundExprToSubExpr, .mutation, .compoundToBlock,
   .inlineInitializer, .inlineFunction, .liveFragColorWrite, .unusedParam]

def name : Kind → String
  | .loopMerge => "loop-merge"
  | .removeStructField => "remove-struct-field"
  | .destructify => "destructify"
  | .unusedStruct => "unused-struct"
  | .inlineStructField => "inline-struct-field"
  | .outlinedStatement => "outlined-statement"
  | .declaration => "declaration"
  | .unwrap => "unwrap"
  | .unswitchify => "unswitchify"
  | .vectorization => "vectorization"
  | .function => "function"
  | .statement => "statement"
  | .exprToConstant => "expression-to-constant"
  | .compoundExprToSubExpr => "compound-expression-to-sub-expression"
  | .mutation => "mutation"
  | .compoundToBlock => "compound-to-block"
  | .inlineInitializer => "inline-initializer"
  | .inlineFunction => "inline-function"
  | .liveFragColorWrite => "live-fragment-colour-write"
  | .unusedParam => "unused-parameter"

def ofName? (name : String) : Option Kind :=
  all.find? fun kind => kind.name == name

/-- Each kind is found by its name. -/
theorem ofName?_name (kind : Kind) : ofName? kind.name = some kind := by
  cases kind <;> decide

/-- No kind is missing from the list of all. -/
theorem mem_all (kind : Kind) : kind ∈ all := by
  cases kind <;> decide

end Kind
end Reduction
end Whittle
