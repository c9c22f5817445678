import Whittle.Reduction.Edit

namespace Whittle
namespace Reduction

/-!
# Searches and the version that a shader names

A search is given a version, which may be another one than the shader names.  What it finds
depends on the declarations of the shader and on the given version, and so does the check that
some searches begin with.  There is one exception: which variables hold the colour of the
fragment is read off the version that the shader names, so the search for writes to the colour
output does not heed the given one.
-/

variable {first second : Shader}

/-- A check is given its version, and looks at nothing else but the declarations. -/
theorem check_eq_of_decls (same : first.decls = second.decls) (version : Version) :
    first.check version = second.check version := by
  have sameMain : Check.checkMain first = Check.checkMain second := by
    rw [Check.checkMain, Check.checkMain, Shader.functions, Shader.functions, same]
  have sameChecker : Check.checkShader first version = Check.checkShader second version := by
    rw [Check.checkShader, Check.checkShader, same, sameMain]
  rw [Shader.check, Shader.check, sameChecker]

/-- Of the version that a shader names it matters whether there is a predefined colour output. -/
theorem ColourWrite.find_eq_of_decls (same : first.decls = second.decls)
    (sameColour : first.version.hasFragColor = second.version.hasFragColor) :
    find first = find second := by
  have sameOutputs : colourOutputs first = colourOutputs second := by
    rw [colourOutputs, colourOutputs, Shader.globals, Shader.globals, sameColour, same]
  rw [find, find, Shader.functions, Shader.functions, sameOutputs, same]

/-- All other searches look at the declarations alone. -/
theorem Kind.editsIn_eq_of_decls {kind : Kind} (same : first.decls = second.decls)
    (sameColour : kind = .liveFragColorWrite →
      first.version.hasFragColor = second.version.hasFragColor)
    (everywhere : Bool) (types : TypeTable) :
    kind.editsIn everywhere types first = kind.editsIn everywhere types second := by
  cases first with
  | mk version decls nextId =>
      cases second with
      | mk version' decls' nextId' =>
          cases same
          cases kind with
          | liveFragColorWrite =>
              exact congrArg (List.map Edit.liveFragColorWrite)
                (ColourWrite.find_eq_of_decls rfl (sameColour rfl))
          | _ => rfl

/-- Two shaders with the same declarations have the same edits of a kind, or the same problems,
whatever versions they name; in the search for writes to the colour output, if both versions
have the predefined output or neither has. -/
theorem Kind.find_eq_of_decls_eq {kind : Kind} (scan : Scan) (same : first.decls = second.decls)
    (sameColour : kind = .liveFragColorWrite →
      first.version.hasFragColor = second.version.hasFragColor) :
    kind.find scan first = kind.find scan second := by
  have sameEdits := fun types => editsIn_eq_of_decls same sameColour scan.everywhere types
  simp only [find, check_eq_of_decls same, sameEdits]

/-- The shader
`void main() { { vec4 _GLF_old = gl_FragColor; gl_FragColor = vec4(1.0); gl_FragColor = _GLF_old; } }`
without a version directive. -/
def restoring : Shader :=
  .ofDecls .implied [.function ⟨.unnumbered, .void, "main", [], ⟨.unnumbered,
    [.block .unnumbered .unnumbered
      [.decl .unnumbered ⟨.unnumbered, none, .vector .float .four, "_GLF_old",
        some (.var .unnumbered "gl_FragColor")⟩,
       .expr .unnumbered (.assign .unnumbered .set (.var .unnumbered "gl_FragColor")
        (.call .unnumbered "vec4" [.float .unnumbered .one])),
       .expr .unnumbered (.assign .unnumbered .set (.var .unnumbered "gl_FragColor")
        (.var .unnumbered "_GLF_old"))]]⟩⟩]

/-- Under another version with the predefined output the block is found as well. -/
theorem find_eq_restoring :
    Kind.find .liveFragColorWrite ⟨.essl300, true⟩ restoring =
        .ok [.liveFragColorWrite ⟨2, "gl_FragColor"⟩] ∧
      restoring.version.hasFragColor = Version.glsl130.hasFragColor ∧
      Kind.find .liveFragColorWrite ⟨.essl300, true⟩ restoring =
        Kind.find .liveFragColorWrite ⟨.essl300, true⟩ { restoring with version := .glsl130 } := by
  have found : Kind.find .liveFragColorWrite ⟨.essl300, true⟩ restoring =
      .ok [.liveFragColorWrite ⟨2, "gl_FragColor"⟩] := by rfl
  exact ⟨found, rfl, Kind.find_eq_of_decls_eq ⟨.essl300, true⟩ rfl fun _ => rfl⟩

/-- A search under version 300 es finds the block in the shader that names no version, and does
not find it if the shader names version 300 es itself. -/
theorem find_restoring_ne :
    Kind.find .liveFragColorWrite ⟨.essl300, true⟩ restoring ≠
      Kind.find .liveFragColorWrite ⟨.essl300, true⟩ { restoring with version := .essl300 } := by
  have found : Kind.find .liveFragColorWrite ⟨.essl300, true⟩ restoring =
      .ok [.liveFragColorWrite ⟨2, "gl_FragColor"⟩] := by rfl
  have missed : Kind.find .liveFragColorWrite ⟨.essl300, true⟩
      { restoring with version := .essl300 } = .ok [] := by rfl
  rw [found, missed]
  exact nofun

end Reduction
end Whittle
