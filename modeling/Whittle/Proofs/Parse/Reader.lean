import Whittle.Parse.Shader

namespace Whittle
namespace Parse

/-!
# What readers do in sequence

A reader that is made of others is taken apart by what each of them reads and
leaves behind.
-/

namespace Reader

variable {α β : Type} {input rest : List Char}

/-- Two readers in a row succeed if the second one does so where the first one
stops. -/
theorem bind_eq_ok_iff {first : Reader α} {second : α → Reader β} {b : β} :
    (first >>= second) input = .ok (b, rest) ↔
      ∃ a between, first input = .ok (a, between) ∧ second a between = .ok (b, rest) := by
  show (first input >>= fun (a, between) => second a between) = _ ↔ _
  cases first input with
  | error stop =>
      constructor
      · intro isRead
        cases isRead
      · rintro ⟨_, _, isRead, _⟩
        cases isRead
  | ok read =>
      rcases read with ⟨a, between⟩
      constructor
      · intro isRead
        exact ⟨a, between, rfl, isRead⟩
      · rintro ⟨_, _, isRead, isRead'⟩
        cases isRead
        exact isRead'

/-- Where the first of two readers succeeds, the second one goes on. -/
theorem bind_eq_of_ok {first : Reader α} {second : α → Reader β} {a : α} {between : List Char}
    (isRead : first input = .ok (a, between)) : (first >>= second) input = second a between := by
  show (first input >>= fun (a, between) => second a between) = _
  rw [isRead]
  rfl

/-- Where the first of two readers fails, both fail. -/
theorem bind_eq_of_error {first : Reader α} {second : α → Reader β} {stop : Stop}
    (fails : first input = .error stop) : (first >>= second) input = .error stop := by
  show (first input >>= fun (a, between) => second a between) = _
  rw [fails]
  rfl

/-- Two readers in a row fail where the first one does, or where the second one does behind
it. -/
theorem bind_eq_error_iff {first : Reader α} {second : α → Reader β} {stop : Stop} :
    (first >>= second) input = .error stop ↔
      first input = .error stop ∨
        ∃ a between, first input = .ok (a, between) ∧ second a between = .error stop := by
  cases isFirst : first input with
  | error stop' =>
      rw [bind_eq_of_error isFirst]
      constructor
      · intro same
        exact .inl (congrArg Except.error (Except.error.inj same))
      · rintro (same | ⟨_, _, isRead, _⟩)
        · exact congrArg Except.error (Except.error.inj same)
        · cases isRead
  | ok read =>
      rcases read with ⟨a, between⟩
      rw [bind_eq_of_ok isFirst]
      constructor
      · intro fails
        exact .inr ⟨a, between, rfl, fails⟩
      · rintro (fails | ⟨_, _, isRead, fails⟩)
        · cases fails
        · cases isRead
          exact fails

/-- Texts that the first of two readers does not tell apart are read alike. -/
theorem bind_congr {first : Reader α} {second : α → Reader β} {text : List Char}
    (same : first input = first text) : (first >>= second) input = (first >>= second) text := by
  show (first input >>= fun (a, between) => second a between) = _
  rw [same]
  rfl

@[simp] theorem get_bind {second : List Char → Reader β} :
    (get >>= second) input = second input input :=
  rfl

@[simp] theorem set_bind {second : PUnit → Reader β} :
    (set rest >>= second : Reader β) input = second ⟨⟩ rest :=
  rfl

@[simp] theorem pure_bind {a : α} {second : α → Reader β} :
    (pure a >>= second : Reader β) input = second a input :=
  rfl

@[simp] theorem pure_eq {a : α} : (pure a : Reader α) input = .ok (a, input) :=
  rfl

theorem pure_eq_ok_iff {a b : α} :
    (pure a : Reader α) input = .ok (b, rest) ↔ a = b ∧ input = rest := by
  show Except.ok (a, input) = _ ↔ _
  rw [Except.ok.injEq, Prod.mk.injEq]

theorem either_eq_first {first second : Reader α} {a : α} (isRead : first input = .ok (a, rest)) :
    either first second input = .ok (a, rest) := by
  rw [either, isRead]

theorem either_eq_second {first second : Reader α} {stop : Stop}
    (fails : first input = .error stop) : either first second input = second input := by
  rw [either, fails]

section

variable {closed : Reader Bool} {item : Reader α} {between left : List Char} {fuel : Nat} {a : α}
  {others : List α}

theorem manyUntil_eq_nil (closes : closed input = .ok (true, rest)) :
    manyUntil closed item (fuel + 1) input = .ok ([], rest) := by
  unfold manyUntil
  rw [bind_eq_of_ok closes]
  rfl

theorem manyUntil_eq_cons (goesOn : closed input = .ok (false, between))
    (first : item between = .ok (a, left))
    (behind : manyUntil closed item fuel left = .ok (others, rest)) :
    manyUntil closed item (fuel + 1) input = .ok (a :: others, rest) := by
  unfold manyUntil
  rw [bind_eq_of_ok goesOn, if_neg Bool.false_ne_true, bind_eq_of_ok first, bind_eq_of_ok behind]
  rfl

end

section

variable {separator : Reader Unit} {item : Reader α} {between left : List Char} {fuel : Nat}
  {a : α} {others : List α} {stop : Stop}

theorem manyBehind_eq_nil (noSeparator : separator input = .error stop) :
    manyBehind separator item fuel input = .ok ([], input) := by
  cases fuel with
  | zero => rfl
  | succ fuel =>
      unfold manyBehind
      rw [bind_eq_of_error noSeparator]

theorem manyBehind_eq_cons (separated : separator input = .ok ((), between))
    (first : item between = .ok (a, left))
    (behind : manyBehind separator item fuel left = .ok (others, rest)) :
    manyBehind separator item (fuel + 1) input = .ok (a :: others, rest) := by
  unfold manyBehind
  rw [bind_eq_of_ok separated, first]
  dsimp only
  rw [behind]
  rfl

end

end Reader
end Parse

/-- A shader that was read has just been numbered. -/
theorem Shader.eq_ofDecls_of_parse {text : String} {shader : Shader}
    (isRead : Shader.parse text = .ok shader) :
    ∃ version decls, shader = ofDecls version decls := by
  unfold parse at isRead
  dsimp only at isRead
  split at isRead
  · rename_i read rest isShader
    cases isRead
    rcases Parse.Reader.bind_eq_ok_iff.mp isShader with ⟨version, _, _, behindVersion⟩
    rcases Parse.Reader.bind_eq_ok_iff.mp behindVersion with ⟨decls, _, _, behindDecls⟩
    exact ⟨version, decls, (Parse.Reader.pure_eq_ok_iff.mp behindDecls).1.symm⟩
  · cases isRead

/-- Reading a fixed text is computed, with a test of the shader it gives. -/
theorem Shader.exists_parse_of_any {text : String} {test : Shader → Bool}
    (passes : (parse text).toOption.any test = true) :
    ∃ shader, parse text = .ok shader ∧ test shader = true := by
  cases isRead : parse text with
  | error stop =>
      rw [isRead] at passes
      cases passes
  | ok shader =>
      rw [isRead] at passes
      exact ⟨shader, rfl, passes⟩

end Whittle
