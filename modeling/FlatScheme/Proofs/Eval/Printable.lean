import FlatScheme.Proofs.Eval.Standard
import FlatScheme.Proofs.Number.Form
import FlatScheme.Proofs.Reader.RoundTrip

/-!
What a program prints can be pasted back.

Expressions that were read are *legible*. All that evaluation can make of legible expressions is
`Sourced`: data that were read, numbers, and procedures with legible bodies. This is a standard in
the sense of `Eval.Standard`, so it holds of all values in the store and of all results, through any
sequence of evaluations (`Standard.session_meets`).

The text of a value that is sourced and no procedure is the text of a datum, which is read back as
an expression with an equal datum. It need not be the same: an integer may be wide, and is read as
an ordinary one. A quote mark in front of the text makes a literal of the value.
-/

namespace FlatScheme

open Lexer (lex IsName)
open Reader (Legible Reads NulFree)
open Text (nul)

/-! ### What is made of legible expressions -/

theorem Lexer.isName_keyword {k : String} (h : k ∈ Keyword.spellings) : IsName k.toList := by
  have hlex : ∀ k ∈ Keyword.spellings, lex none k.toList = (.ok (.sym k), []) := by decide +kernel
  exact wellRead_of_lex (hlex k h)

theorem Reader.legible_keyword {k : String} (h : k ∈ Keyword.spellings) : Legible (.sym k) :=
  .sym (Lexer.isName_keyword h)

theorem Reader.legible_list_iff {xs : List Expr} :
    Legible (.list xs) ↔ ∀ x ∈ xs, Legible x := by
  constructor
  · intro h
    cases h with
    | list h => exact h
  · exact .list

/-- What evaluation makes of legible expressions. -/
inductive Value.Sourced : Value → Prop
  | num (n : Number) : Sourced (.num n)
  | datum {x : Expr} (h : Legible x) : Sourced x.datum
  | prim (p : Primitive) : Sourced (.prim p)
  | closure (identity : Nat) (env : EnvId) (params : List String) {body : Expr}
      (h : Legible body) : Sourced (.closure identity env params body)

/-- No datum is a procedure. -/
theorem Expr.kind_datum (x : Expr) : x.datum.kind ≠ .procedure := by
  cases x with
  | absent | num | str | sym => simp [datum, Value.kind]
  | list xs => cases xs <;> simp [datum, datumList, Value.kind]
  | quoted d => cases d <;> simp [datum, Value.kind]

theorem Value.Sourced.of_isAtom {v : Value} (h : v.IsAtom) : v.Sourced := by
  cases v with
  | nil =>
    have hdatum : (Expr.list []).datum = .nil := by simp [Expr.datum, Expr.datumList]
    exact hdatum ▸ .datum (.list (by simp))
  | num n => exact .num n
  | str s =>
    have hdatum : (Expr.str s).datum = .str s := by simp [Expr.datum]
    exact hdatum ▸ .datum (.str s)
  | bool b =>
    have hdatum : (Expr.quoted (.bool b)).datum = .bool b := by simp [Expr.datum]
    exact hdatum ▸ .datum (.bool b)
  | _ => exact h.elim

namespace Eval

theorem legible_defineValue {x : String} {e : Expr}
    (h : Legible (.list [.sym "define", .sym x, e])) : Legible (defineValue x e) := by
  have hitems := Reader.legible_list_iff.mp h
  simp only [List.forall_mem_cons] at hitems
  obtain ⟨-, hx, he, -⟩ := hitems
  have hname : Legible (.quoted (.sym x)) := by
    have hquoted := hx.quoted
    rwa [Expr.datum] at hquoted
  have hset : Legible (.list [.sym "set!", .sym x, e]) := by
    refine .list ?_
    simp only [List.forall_mem_cons]
    exact ⟨Reader.legible_keyword (by decide), hx, he, by simp⟩
  refine .list ?_
  simp only [List.forall_mem_cons]
  exact ⟨Reader.legible_keyword (by decide), hset, hname, by simp⟩

theorem legible_defineProcedure {f : String} {params body : List Expr}
    (h : Legible (.list (.sym "define" :: .list (.sym f :: params) :: body))) :
    Legible (defineProcedure f params body) := by
  simp only [Reader.legible_list_iff, List.forall_mem_cons] at h
  obtain ⟨hdefine, ⟨hf, hparams⟩, hbody⟩ := h
  simp only [defineProcedure, Reader.legible_list_iff, List.forall_mem_cons]
  exact ⟨hdefine, hf, ⟨Reader.legible_keyword (by decide), hparams, hbody⟩, by simp⟩

theorem legible_bodyOf {params body : List Expr}
    (h : Legible (.list (.sym "lambda" :: .list params :: body))) : Legible (bodyOf body) := by
  simp only [Reader.legible_list_iff, List.forall_mem_cons] at h
  simp only [bodyOf, Reader.legible_list_iff, List.forall_mem_cons]
  exact ⟨Reader.legible_keyword (by decide), h.2.2⟩

/-- Legible expressions make sourced values. -/
def Standard.sourced : Standard where
  value _ v := v.Sourced
  expr _ e _ := Legible e
  value_mono _ h := h
  expr_mono _ h := h
  plain h := .of_isAtom h
  quoted := by
    intro s d env h
    generalize he : Expr.quoted d = e at h
    cases h with
    | bool b =>
      cases he
      exact .of_isAtom trivial
    | quoted hx =>
      cases he
      exact .datum hx
    | _ => cases he
  empty _ := .list (by simp)
  parts h hmem := Reader.legible_list_iff.mp h _ (parts_subset _ hmem)
  define h := legible_defineValue h
  procedure h := legible_defineProcedure h
  lambda h := .closure _ _ _ (legible_bodyOf h)
  enter := by
    intro s i env names body t h
    generalize hv : Value.closure i env names body = v at h
    cases h with
    | @datum x =>
      -- no datum is a procedure
      have hkind := x.kind_datum
      rw [← hv] at hkind
      exact absurd rfl hkind
    | closure _ _ _ hbody =>
      cases hv
      exact hbody
    | _ => cases hv

/-- A sequence of evaluations on a store that meets a standard: the results meet it, and so does the
    store that is left. -/
theorem Standard.session_meets {D : Standard} {requests : List Request} {s : Store} (hs : D.Met s)
    (h : ∀ q ∈ requests, D.expr s q.expr q.env) :
    D.Met (session requests s).2 ∧
      ∀ v, .ok v ∈ (session requests s).1 → ∃ s', D.value s' v := by
  induction requests generalizing s with
  | nil => exact ⟨hs, by simp [session]⟩
  | cons q rest ih =>
    rw [List.forall_mem_cons] at h
    obtain ⟨hgrow, hs', hvalue⟩ := eval_meets q.evaluator q.fuel hs h.1
    obtain ⟨hleft, hothers⟩ := ih hs' fun q' hq' => D.expr_mono hgrow (h.2 q' hq')
    refine ⟨hleft, ?_⟩
    intro v hv
    simp only [session, List.mem_cons] at hv
    rcases hv with hv | hv
    · exact ⟨_, hvalue v hv.symm⟩
    · exact hothers v hv

theorem met_newGlobal : Standard.sourced.Met Store.empty.newGlobal.2 := by
  have hempty : Standard.sourced.Met Store.empty := fun _ _ _ h => nomatch h
  refine hempty.allocate ?_
  intro x v hv
  rcases Table.get?_foldl_insert Primitive.name Value.prim _ _ hv with ⟨p, -, rfl⟩ | hv
  · exact .prim p
  · cases hv

end Eval

/-! ### Equal data -/

namespace Number

/-- A number is neither infinite nor not-a-number. -/
def IsFinite : Number → Prop
  | .int _ _ => True
  | .float x => x.IsFinite

theorem IsFinite.narrowed {n : Number} (h : n.IsFinite) : n.narrowed.IsLiteral := by
  cases n with
  | int n wide => rfl
  | float x => exact h

theorem IsLiteral.isFinite {n : Number} (h : n.IsLiteral) : n.IsFinite := by
  cases n with
  | int n wide => trivial
  | float x => exact h

theorem equal_narrowed {n : Number} (h : n.IsFinite) :
    n.equal n.narrowed = true ∧ n.narrowed.equal n = true ∧ n.equal n = true := by
  cases n with
  | int n wide => simp [narrowed, ofInt, equal, isNaN, cmp]
  | float x =>
    cases x with
    | nan => exact h.elim
    | signed negative rank =>
      simp [narrowed, equal, isNaN, Binary64.isNaN, cmp, toFloat, Binary64.cmp]

end Number

namespace Expr

theorem equal_datumList {xs : List Expr} (h : ∀ x ∈ xs, x.datum.equal x.datum = true) :
    (datumList xs).equal (datumList xs) = true := by
  induction xs with
  | nil => simp [datumList, Value.equal, Value.isEmpty]
  | cons x xs ih =>
    rw [List.forall_mem_cons] at h
    rw [datumList, Value.equal, h.1, ih h.2, Bool.and_self]

end Expr

/-- A datum that was read is equal to itself, for its numbers are finite. -/
theorem Reader.Legible.equal_datum {x : Expr} (h : Legible x) : x.datum.equal x.datum = true := by
  induction h with
  | num literal =>
    rw [Expr.datum, Value.equal]
    exact (Number.equal_narrowed literal.isFinite).2.2
  | str s => simp [Expr.datum, Value.equal]
  | sym => simp [Expr.datum, Value.equal]
  | bool b => simp [Expr.datum, Value.equal]
  | @quoted x _ ih =>
    by_cases hbool : ∃ b, x.datum = .bool b
    · obtain ⟨b, hb⟩ := hbool
      rw [hb, Expr.datum, Value.equal, beq_self_eq_true]
    · rw [Expr.datum_quoted fun b heq => hbool ⟨b, heq⟩]
      simp [Value.equal, Value.isEmpty, ih]
  | list _ ih =>
    rw [Expr.datum]
    exact Expr.equal_datumList ih

/-! ### Texts of values -/

/-- The text of a value that is sourced and no procedure is read as an expression whose datum is equal
    to the value. -/
theorem Value.Sourced.exists_reads {v : Value} (h : v.Sourced) (hkind : v.kind ≠ .procedure)
    (hfinite : ∀ n, v = .num n → n.IsFinite) (hnul : ∀ t ∈ v.strings, nul ∉ t.toList) :
    ∃ y : Expr, Reads v.text.toList y ∧ v.equal y.datum = true ∧ y.datum.equal v = true := by
  cases h with
  | num n =>
    have hn := hfinite n rfl
    obtain ⟨hto, hfrom, -⟩ := Number.equal_narrowed hn
    have hreads := (Reader.faithful_num hn.narrowed).text fun t ht => by simp [Expr.strings] at ht
    have htext : (Expr.num n.narrowed).text = (Value.num n).text := by
      simp [Expr.text, Expr.writes, Expr.writesBefore, text, writes, writesBefore, atomText,
        Number.text_narrowed]
    rw [htext] at hreads
    refine ⟨.num n.narrowed, hreads, ?_⟩
    rw [Expr.datum, Value.equal, Value.equal]
    exact ⟨hto, hfrom⟩
  | @datum x hx =>
    have hx' : NulFree x := by
      rw [Expr.strings_datum] at hnul
      exact hnul
    obtain ⟨y, hy, hreads⟩ := hx.faithful.datum hx'
    refine ⟨y, hreads, ?_⟩
    rw [hy]
    exact ⟨hx.equal_datum, hx.equal_datum⟩
  | prim | closure => exact absurd rfl hkind

/-- A quote mark in front of a text. -/
theorem Reader.Reads.readAll_quote {text : String} {y : Expr} (h : Reads text.toList y) :
    (Source.ofString ("'" ++ text)).readAll = .ok [.quoted y.datum] ∧
      (Source.ofString ("'" ++ text)).readOne = .ok (.quoted y.datum) := by
  have hread : readFrom none [] ('\x27' :: text.toList) = (.ok (.quoted y.datum), []) := by
    have hquote := h.quote [] [] trivial
    rwa [List.append_nil] at hquote
  have hnext : (Source.ofString ("'" ++ text)).next = (.ok (.quoted y.datum), ⟨[], none⟩) := by
    have htoList : ("'" ++ text).toList = '\x27' :: text.toList := by
      rw [String.toList_append]
      rfl
    rw [Source.ofString, htoList]
    exact Source.next_of_readFrom hread
  constructor
  · rw [Source.readAll, Source.readRest_eq, hnext]
    exact Source.readRest_lines (List.forall_mem_nil _) [.quoted y.datum]
  · rw [Source.readOne, hnext]

/-- A quoted datum is its own value. -/
theorem Evaluator.returns_quoted (ev : Evaluator) (d : Value) (env : EnvId) (s : Store) :
    ev.Returns (.quoted d) env s (.ok d) s := by
  obtain ⟨limit, hlimit⟩ : ∃ n, ev.limit = n + 1 :=
    ⟨ev.limit - 1, by have := ev.one_le_limit; omega⟩
  refine @returns_of_eval ev 1 _ _ _ _ _ ?_
  cases hrec : ev.recursive with
  | true =>
    rw [eval_of_recursive hrec, hlimit]
    rfl
  | false =>
    rw [eval_of_not_recursive hrec, hlimit]
    rfl

/-- Printed results can be pasted back. Let expressions that were read be evaluated one after the
    other in a new global environment, by any evaluators and whatever comes of each. Take any value
    among the results that is no procedure, is not infinite or not-a-number, and has no string with
    a NUL in it. A quote mark and the text of the value are read as one expression, and by any
    evaluator that expression has a value that is equal to the first. -/
theorem session_pasted_back {requests : List Request}
    (hread : ∀ q ∈ requests, ∃ src rest, Source.next src = (.ok q.expr, rest)) {v : Value}
    (hv : .ok v ∈ (session requests Store.empty.newGlobal.2).1) (hkind : v.kind ≠ .procedure)
    (hfinite : ∀ n, v = .num n → n.IsFinite) (hnul : ∀ t ∈ v.strings, nul ∉ t.toList) :
    ∃ e, (Source.ofString ("'" ++ v.text)).readAll = .ok [e] ∧
      (Source.ofString ("'" ++ v.text)).readOne = .ok e ∧
      ∃ w, v.equal w = true ∧ w.equal v = true ∧
        ∀ (ev : Evaluator) (env : EnvId) (s : Store), ev.Returns e env s (.ok w) s := by
  have hlegible : ∀ q ∈ requests, Legible q.expr := by
    intro q hq
    obtain ⟨src, rest, hnext⟩ := hread q hq
    exact Reader.readFrom_legible (by simp) (Source.readFrom_of_next hnext)
  obtain ⟨-, hresults⟩ := Eval.Standard.session_meets Eval.met_newGlobal hlegible
  obtain ⟨_, hsourced⟩ := hresults v hv
  obtain ⟨y, hreads, hto, hfrom⟩ := Value.Sourced.exists_reads hsourced hkind hfinite hnul
  obtain ⟨hall, hone⟩ := hreads.readAll_quote
  exact ⟨.quoted y.datum, hall, hone, y.datum, hto, hfrom, fun ev env s =>
    ev.returns_quoted y.datum env s⟩

/-! ### A sample -/

/-- The text `(- 2147483648 0)`. -/
def wideText : List Char := "(- 2147483648 0)".toList

/-- What is read from it. -/
def wideExpr : Expr := .list [.sym "-", .num (.ofInt 2147483648), .num .zero]

theorem next_wideText : Source.next ⟨wideText, none⟩ = (.ok wideExpr, ⟨[], none⟩) := by
  have hminus : lex none "- 2147483648 0)".toList = (.ok (.sym "-"), " 2147483648 0)".toList) := by
    decide +kernel
  have hnum : lex none " 2147483648 0)".toList =
      (.ok (.num (.ofInt 2147483648)), " 0)".toList) := by decide +kernel
  have hzero : lex none " 0)".toList = (.ok (.num .zero), [')']) := by decide +kernel
  have htext : wideText = '(' :: "- 2147483648 0)".toList := by decide
  refine Source.next_of_readFrom ?_
  rw [htext, Reader.readFrom_of_lex (Lexer.lex_open _), Reader.feed, Reader.resume,
    Reader.readFrom_of_lex hminus, Reader.feed, Reader.complete, Reader.resume,
    Reader.readFrom_of_lex hnum, Reader.feed, Reader.complete, Reader.resume,
    Reader.readFrom_of_lex hzero, Reader.feed, Reader.complete, Reader.resume]
  exact Reader.readFrom_of_lex (Lexer.lex_close _) _

/-- The difference is wide, which no integer that is read is, but it can be pasted back. -/
theorem wide_pasted_back :
    (session [⟨wideExpr, 0, ⟨true, 5⟩, 0⟩] Store.empty.newGlobal.2).1 =
      [.ok (.num (.int 2147483648 true))] ∧
    ∃ e, (Source.ofString ("'" ++ (Value.num (.int 2147483648 true)).text)).readOne = .ok e ∧
      ∃ w, (Value.num (.int 2147483648 true)).equal w = true ∧
        ∀ (ev : Evaluator) (env : EnvId) (s : Store), ev.Returns e env s (.ok w) s := by
  have hsession : (session [⟨wideExpr, 0, ⟨true, 5⟩, 0⟩] Store.empty.newGlobal.2).1 =
      [.ok (.num (.int 2147483648 true))] := rfl
  have hread : ∀ q ∈ [(⟨wideExpr, 0, ⟨true, 5⟩, 0⟩ : Request)],
      ∃ src rest, Source.next src = (.ok q.expr, rest) := by
    intro q hq
    obtain rfl := List.mem_singleton.mp hq
    exact ⟨_, _, next_wideText⟩
  obtain ⟨e, -, hone, w, hequal, -, hreturns⟩ := session_pasted_back hread
    (hsession ▸ List.mem_cons_self) (by simp [Value.kind]) (by rintro n ⟨⟩; trivial)
    (by simp [Value.strings])
  exact ⟨hsession, e, hone, w, hequal, hreturns⟩

end FlatScheme
