import Whittle.Reduction.Edit

namespace Whittle
namespace Reduction

/-!
# Discovery

Discovery runs a list of finders in their order and lists all that they find.
If it is to verify what they find, it applies each edit to the shader on its own
and checks the result; the shader itself must be valid then.  The first failure
ends it.  A finder is any search that can fail and any kind of thing to apply;
there is one for each kind of simplification.
-/

/-- Why a discovery ended early. -/
inductive Failure where
  /-- The shader was not valid to begin with. -/
  | invalidShader (reason : String)
  /-- A search came to nothing. -/
  | scan (kind : Kind) (reason : String)
  /-- An edit makes the shader invalid. -/
  | invalidEdit (kind : Kind) (description reason : String)
deriving DecidableEq

namespace Failure

/-- The kind of simplification to blame, if there is one. -/
def kind? : Failure → Option Kind
  | .invalidShader _ => none
  | .scan kind _ => some kind
  | .invalidEdit kind _ _ => some kind

def message : Failure → String
  | .invalidShader reason => "input program is invalid: " ++ reason
  | .scan kind reason => kind.name ++ " finder failed: " ++ reason
  | .invalidEdit kind description reason =>
      kind.name ++ " finder proposed an invalid opportunity '" ++ description ++ "': " ++ reason

end Failure

/-- What can be applied to a shader and described, as an edit can. -/
class EditLike (α : Type) where
  apply : α → Shader → Shader
  describe : α → String

instance : EditLike Edit := ⟨Edit.apply, Edit.describe⟩

/-- A search for one kind of simplification, which may fail for reasons of its own. -/
structure Finder (α : Type) where
  kind : Kind
  find : Scan → Shader → Except Failure (List α)

/-- An edit that was found, and whether it was verified. -/
structure Proposal (α : Type) where
  kind : Kind
  verified : Bool
  edit : α
deriving DecidableEq

section

variable {α : Type} [EditLike α]

/-- Check that an edit, applied to a shader on its own, leaves it valid. -/
def verifyEdit (version : Version) (shader : Shader) (kind : Kind) (edit : α) :
    Except Failure Unit :=
  match (EditLike.apply edit shader).check version with
  | .ok _ => .ok ()
  | .error problems =>
      .error (.invalidEdit kind (EditLike.describe edit) (Check.summary problems))

def propose (version : Version) (verify : Bool) (shader : Shader) (kind : Kind) (edit : α) :
    Except Failure (Proposal α) := do
  if verify then verifyEdit version shader kind edit
  return ⟨kind, verify, edit⟩

def Finder.discover (scan : Scan) (verify : Bool) (shader : Shader) (finder : Finder α) :
    Except Failure (List (Proposal α)) := do
  let edits ← finder.find scan shader
  edits.mapM (propose scan.version verify shader finder.kind)

/-- What the finders propose, one after the other. -/
def discoverEach (scan : Scan) (verify : Bool) (shader : Shader) (finders : List (Finder α)) :
    Except Failure (List (Proposal α)) :=
  (finders.mapM (Finder.discover scan verify shader)).map List.flatten

/-- A list of finders is gone through piece by piece. -/
theorem discoverEach_append (scan : Scan) (verify : Bool) (shader : Shader)
    (first second : List (Finder α)) :
    discoverEach scan verify shader (first ++ second) = do
      let proposals ← discoverEach scan verify shader first
      let others ← discoverEach scan verify shader second
      return proposals ++ others := by
  unfold discoverEach
  rw [List.mapM_append]
  cases first.mapM (Finder.discover scan verify shader) with
  | error failure => rfl
  | ok proposals =>
      cases second.mapM (Finder.discover scan verify shader) with
      | error failure => rfl
      | ok others => exact congrArg Except.ok List.flatten_append

/-- What the finders propose for a shader that, if they are to be verified, is valid. -/
def discoverWith (finders : List (Finder α)) (scan : Scan) (verify : Bool) (shader : Shader) :
    Except Failure (List (Proposal α)) := do
  if verify then
    let _ ← (shader.check scan.version).mapError fun problems =>
      Failure.invalidShader (Check.summary problems)
  discoverEach scan verify shader finders

end

def Kind.finder (kind : Kind) : Finder Edit where
  kind := kind
  find scan shader := (kind.find scan shader).mapError fun problems =>
    .scan kind (Check.summary problems)

/-- The edits of all given kinds, verified if this is asked for. -/
def discover (kinds : List Kind) (scan : Scan) (verify : Bool) (shader : Shader) :
    Except Failure (List Edit) :=
  (discoverWith (kinds.map Kind.finder) scan verify shader).map (List.map Proposal.edit)

end Reduction
end Whittle
