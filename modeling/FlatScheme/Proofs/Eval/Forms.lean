import FlatScheme.Proofs.Eval.Dialogue

/-!
The special forms and their dialogues.

A list that starts with a keyword has one of few right shapes (`Shaped`) or is refused before any
part of it is asked for (`step_invalid`). A list that starts with anything else is an application
(`step_application`).
-/

namespace FlatScheme

namespace Keyword

/-- The word that a keyword is written as. -/
def name : Keyword → String
  | .begin => "begin"
  | .set => "set!"
  | .define => "define"
  | .cond => "if"
  | .lambda => "lambda"

theorem ofName?_eq_some {x : String} {keyword : Keyword} (h : ofName? x = some keyword) :
    x = keyword.name := by
  unfold ofName? at h
  split at h <;> cases h <;> rfl

theorem ofName?_eq_none_iff {x : String} : ofName? x = none ↔ x ∉ spellings := by
  unfold ofName?
  split <;> simp_all [spellings]

/-- The spellings are those of the keywords. -/
theorem exists_ofName?_of_mem {x : String} (h : x ∈ spellings) :
    ∃ keyword, ofName? x = some keyword := by
  cases hk : ofName? x with
  | some keyword => exact ⟨keyword, rfl⟩
  | none => exact absurd h (ofName?_eq_none_iff.mp hk)

end Keyword

namespace Eval

theorem paramNames?_map (names : List String) : paramNames? (names.map .sym) = some names := by
  induction names with
  | nil => rfl
  | cons x names ih => rw [List.map_cons, paramNames?, ih, Option.map_some]

theorem eq_map_of_paramNames? {params : List Expr} {names : List String}
    (h : paramNames? params = some names) : params = names.map .sym := by
  induction params generalizing names with
  | nil =>
    cases h
    rfl
  | cons param params ih =>
    cases param with
    | sym x =>
      rw [paramNames?, Option.map_eq_some_iff] at h
      obtain ⟨names, hnames, rfl⟩ := h
      rw [ih hnames, List.map_cons]
    | _ => cases h

/-- The special forms of the right shape, keyword first. -/
inductive Shaped : List Expr → Prop
  | begin (x : Expr) (rest : List Expr) : Shaped (.sym "begin" :: x :: rest)
  | set (x : String) (e : Expr) : Shaped [.sym "set!", .sym x, e]
  | define (x : String) (e : Expr) : Shaped [.sym "define", .sym x, e]
  | procedure (f : String) (params : List Expr) (b : Expr) (body : List Expr) :
      Shaped (.sym "define" :: .list (.sym f :: params) :: b :: body)
  | cond (test yes : Expr) (no : Option Expr) : Shaped (.sym "if" :: test :: yes :: no.toList)
  | lambda (names : List String) (body : List Expr) :
      Shaped (.sym "lambda" :: .list (names.map .sym) :: body)

theorem Shaped.lambda_inv {params body : List Expr}
    (h : Shaped (.sym "lambda" :: .list params :: body)) :
    ∃ names : List String, params = names.map .sym := by
  generalize hitems : (.sym "lambda" :: .list params :: body : List Expr) = items at h
  cases h with
  | lambda names => cases hitems; exact ⟨names, rfl⟩
  | _ => simp at hitems

namespace Dialogue

theorem step_application {operator : Expr} (hop : ∀ k ∈ Keyword.spellings, operator ≠ .sym k)
    (args : List Expr) (env : EnvId) (s : Store) :
    step (.list (operator :: args)) env s = application env operator args s := by
  cases operator with
  | sym x =>
    have hx : Keyword.ofName? x = none :=
      Keyword.ofName?_eq_none_iff.mpr fun hx => hop x hx rfl
    simp only [step, hx]
  | _ => rfl

theorem step_invalid {k : String} {parts : List Expr} (hk : k ∈ Keyword.spellings)
    (h : ¬ Shaped (.sym k :: parts)) (env : EnvId) (s : Store) :
    step (.list (.sym k :: parts)) env s =
      .done (.error (.invalid (.list (.sym k :: parts))), s) := by
  obtain ⟨keyword, hkeyword⟩ := Keyword.exists_ofName?_of_mem hk
  obtain rfl := Keyword.ofName?_eq_some hkeyword
  simp only [step, hkeyword]
  -- each equation with a pattern of its own is for a right shape
  unfold special
  split
  · exact absurd (.begin _ _) h
  · exact absurd (.set _ _) h
  · exact absurd (.cond _ _ none) h
  · exact absurd (.cond _ _ (some _)) h
  · unfold Eval.special
    split
    · exact absurd (.begin _ _) h
    · exact absurd (.set _ _) h
    · exact absurd (.define _ _) h
    · exact absurd (.procedure _ _ _ _) h
    · exact absurd (.cond _ _ none) h
    · exact absurd (.cond _ _ (some _)) h
    · next params body _ _ _ _ =>
      cases hp : paramNames? params with
      | some names =>
        rw [eq_map_of_paramNames? hp] at h
        exact absurd (.lambda names body) h
      | none => rfl
    · rfl

theorem step_cond (test yes : Expr) (no : Option Expr) (env : EnvId) (s : Store) :
    step (.list (.sym "if" :: test :: yes :: no.toList)) env s =
      .ask ⟨test, env, s⟩ fun v s' =>
        .done (.ok (.tail (if v.isTrue then yes else no.getD (.list [])) env), s') := by
  cases no <;> rfl

theorem step_lambda (names : List String) (body : List Expr) (env : EnvId) (s : Store) :
    step (.list (.sym "lambda" :: .list (names.map .sym) :: body)) env s =
      .done (.ok (.value (.closure s.newIdentity.1 env names (bodyOf body))), s.newIdentity.2) := by
  show Dialogue.done (Eval.special (fun _ _ => .starve) env _ .lambda
    (.list (names.map .sym) :: body) s) = _
  simp only [Eval.special, paramNames?_map]
  rfl

end Dialogue

end Eval

end FlatScheme
