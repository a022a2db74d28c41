import FlatScheme.Proofs.Eval.Closures
import FlatScheme.Proofs.Primitive.Congruence

/-!
Evaluation up to renaming.

The numbers of environments and the identities of closures are arbitrary names. A `Renaming` says
which of them on one store go with which on another; values and tables are then the same up to it.
Nothing that the language offers tells such values apart: they have the same type, text and truth
value, and the primitives return the same of them, equality included, since a renaming is one to one
(`Primitive.apply_renamed`).

Fresh numbers are handed out in order on both sides. So the renaming can contain, from the start, the
pairs of numbers that are still to come, and it stays the same throughout an evaluation. This makes
it a simulation (`Renaming.simulation`).
-/

namespace FlatScheme

/-- Which environments and identities go with which, one to one. -/
structure Renaming where
  env : EnvId → EnvId → Prop
  identity : Nat → Nat → Prop
  env_iff {a a' b b' : EnvId} : env a b → env a' b' → (a = a' ↔ b = b')
  identity_iff {i i' j j' : Nat} : identity i j → identity i' j' → (i = i' ↔ j = j')

/-- Closures that go by the same numbers on both sides. -/
def Renaming.Fixes (ρ : Renaming) (closures : List (Nat × EnvId)) : Prop :=
  ∀ c ∈ closures, ρ.identity c.1 c.1 ∧ ρ.env c.2 c.2

theorem Renaming.Fixes.mono {ρ : Renaming} {cs cs' : List (Nat × EnvId)} (h : ρ.Fixes cs)
    (hsub : cs' ⊆ cs) : ρ.Fixes cs' := fun c hc => h c (hsub hc)

/-- The same value up to renaming. Closures are renamed; their bodies are the same, and so are the
    closures in quoted data of the bodies. -/
inductive Value.Renamed (ρ : Renaming) : Value → Value → Prop
  | nil : Renamed ρ .nil .nil
  | emptyPair : Renamed ρ .emptyPair .emptyPair
  | pair {car car' cdr cdr' : Value} (hcar : Renamed ρ car car') (hcdr : Renamed ρ cdr cdr') :
      Renamed ρ (.pair car cdr) (.pair car' cdr')
  | num (n : Number) : Renamed ρ (.num n) (.num n)
  | str (s : String) : Renamed ρ (.str s) (.str s)
  | sym (x : String) : Renamed ρ (.sym x) (.sym x)
  | bool (b : Bool) : Renamed ρ (.bool b) (.bool b)
  | prim (p : Primitive) : Renamed ρ (.prim p) (.prim p)
  | broken (i : Nat) (name reason : String) :
      Renamed ρ (.broken i name reason) (.broken i name reason)
  | closure {i j : Nat} {a b : EnvId} (names : List String) {body : Expr}
      (hidentity : ρ.identity i j) (henv : ρ.env a b) (hbody : ρ.Fixes body.closures) :
      Renamed ρ (.closure i a names body) (.closure j b names body)

namespace Value.Renamed

variable {ρ : Renaming} {v v' w w' : Value}

theorem of_fixes : ∀ {v : Value}, ρ.Fixes v.closures → v.Renamed ρ v
  | .pair _ _, h =>
    .pair (of_fixes (h.mono (List.subset_append_left _ _)))
      (of_fixes (h.mono (List.subset_append_right _ _)))
  | .closure _ _ names _, h =>
    .closure names (h _ List.mem_cons_self).1 (h _ List.mem_cons_self).2
      (h.mono (List.subset_cons_self _ _))
  | .nil, _ => .nil
  | .emptyPair, _ => .emptyPair
  | .num n, _ => .num n
  | .str s, _ => .str s
  | .sym x, _ => .sym x
  | .bool b, _ => .bool b
  | .prim p, _ => .prim p
  | .broken i name reason, _ => .broken i name reason

/-- Where each number goes with itself only, nothing is renamed. -/
theorem eq (henv : ∀ a b, ρ.env a b → a = b) (hidentity : ∀ i j, ρ.identity i j → i = j)
    (h : v.Renamed ρ v') : v = v' := by
  induction h with
  | pair _ _ ihcar ihcdr => rw [ihcar, ihcdr]
  | closure names hi ha _ => rw [hidentity _ _ hi, henv _ _ ha]
  | _ => rfl

/-! ### What the language sees of values -/

theorem kind_eq (h : v.Renamed ρ v') : v.kind = v'.kind := by
  cases h <;> rfl

theorem isTrue_eq (h : v.Renamed ρ v') : v.isTrue = v'.isTrue := by
  cases h <;> rfl

theorem isEmpty_eq (h : v.Renamed ρ v') : v.isEmpty = v'.isEmpty := by
  cases h <;> rfl

theorem writes_eq (h : v.Renamed ρ v') (after : List String) :
    v.writesBefore after = v'.writesBefore after ∧ v.tailWrites after = v'.tailWrites after := by
  induction h generalizing after with
  | pair _ _ ihcar ihcdr =>
    simp only [writesBefore, tailWrites, (ihcdr after).2, (ihcar _).1, and_self]
  | _ => exact ⟨rfl, rfl⟩

theorem text_eq (h : v.Renamed ρ v') : v.text = v'.text := by
  rw [text, text, writes, writes, (h.writes_eq []).1]

/-- Values that are equal on one side are equal on the other. -/
theorem equal_eq (hv : v.Renamed ρ v') (hw : w.Renamed ρ w') : v.equal w = v'.equal w' := by
  induction hv generalizing w w' with
  | nil => exact hw.isEmpty_eq
  | emptyPair => exact hw.isEmpty_eq
  | pair _ _ ihcar ihcdr =>
    cases hw with
    | pair hcar hcdr => simp only [Value.equal, ihcar hcar, ihcdr hcdr]
    | _ => rfl
  | closure names hi _ _ =>
    cases hw with
    | closure names' hj _ _ =>
      simp only [Value.equal]
      exact Bool.eq_iff_iff.mpr (by simpa using ρ.identity_iff hi hj)
    | _ => rfl
  | _ => cases hw <;> rfl

end Value.Renamed

/-- Primitives cannot tell apart values that are the same up to renaming. -/
theorem Renaming.indistinct (ρ : Renaming) : Indistinct Eq (Value.Renamed ρ) where
  kind h := h.kind_eq
  isTrue h := h.isTrue_eq
  equal hv hw := hv.equal_eq hw
  str h := by cases h; rfl
  bool h := by cases h; rfl
  num h := by cases h; exact ⟨_, rfl, rfl⟩

theorem Primitive.apply_renamed {ρ : Renaming} (p : Primitive) {vs vs' : List Value}
    (h : List.Forall₂ (Value.Renamed ρ) vs vs') : p.apply vs = p.apply vs' :=
  apply_congr ρ.indistinct p h

/-! ### Tables and stores -/

/-- The same names bound to the same values up to renaming. -/
def Table.Renamed (ρ : Renaming) (t u : Table) : Prop :=
  ∀ x, Option.Rel (Value.Renamed ρ) (t.get? x) (u.get? x)

namespace Table.Renamed

variable {ρ : Renaming} {t u : Table}

theorem of_fixes (h : ∀ x v, t.get? x = some v → ρ.Fixes v.closures) : t.Renamed ρ t := by
  intro x
  cases hx : t.get? x with
  | none => exact .none
  | some v => exact .some (.of_fixes (h x v hx))

theorem empty : Table.empty.Renamed ρ .empty := fun _ => .none

theorem insert (h : t.Renamed ρ u) (x : String) {v v' : Value} (hv : v.Renamed ρ v') :
    (t.insert x v).Renamed ρ (u.insert x v') := by
  intro y
  rw [get?_insert, get?_insert]
  split
  · exact .some hv
  · exact h y

theorem insertAll (h : t.Renamed ρ u) (names : List String) {vs vs' : List Value}
    (hvs : List.Forall₂ (Value.Renamed ρ) vs vs') :
    (t.insertAll names vs).Renamed ρ (u.insertAll names vs') := by
  induction hvs generalizing names t u with
  | nil => simpa [Table.insertAll] using h
  | cons hv _ ih =>
    cases names with
    | nil => exact h
    | cons x names => exact ih (h.insert x hv) names

theorem eq (henv : ∀ a b, ρ.env a b → a = b) (hidentity : ∀ i j, ρ.identity i j → i = j)
    (h : t.Renamed ρ u) : t = u := by
  refine ext_get? ?_
  intro x
  have hx := h x
  generalize t.get? x = l at hx ⊢
  generalize u.get? x = r at hx ⊢
  cases hx with
  | none => rfl
  | some hv => rw [hv.eq henv hidentity]

end Table.Renamed

/-- Environments that go together have the same table up to renaming, and so do, pair by pair, the
    environments and identities that are not handed out yet. -/
structure Stores.Renamed (ρ : Renaming) (w : Stores) : Prop where
  tables : ∀ a b, ρ.env a b → (w.left.table a).Renamed ρ (w.right.table b)
  freshEnv : ∀ k, ρ.env (w.left.tables.size + k) (w.right.tables.size + k)
  freshIdentity : ∀ k, ρ.identity (w.left.nextIdentity + k) (w.right.nextIdentity + k)

theorem Store.table_of_le {s : Store} {env : EnvId} (h : s.tables.size ≤ env) :
    s.table env = .empty := by
  simp [table, h]

namespace Stores.Renamed

variable {ρ : Renaming} {w : Stores} {a b : EnvId}

/-- An environment is there on one side if it is on the other. -/
theorem lt_size_iff (hw : w.Renamed ρ) (h : ρ.env a b) :
    a < w.left.tables.size ↔ b < w.right.tables.size := by
  constructor
  · intro ha
    by_contra hb
    obtain ⟨k, rfl⟩ := Nat.exists_eq_add_of_le (Nat.le_of_not_lt hb)
    obtain rfl := (ρ.env_iff h (hw.freshEnv k)).mpr rfl
    exact Nat.not_lt_of_le (Nat.le_add_right _ k) ha
  · intro hb
    by_contra ha
    obtain ⟨k, rfl⟩ := Nat.exists_eq_add_of_le (Nat.le_of_not_lt ha)
    obtain rfl := (ρ.env_iff h (hw.freshEnv k)).mp rfl
    exact Nat.not_lt_of_le (Nat.le_add_right _ k) hb

theorem bind (hw : w.Renamed ρ) (h : ρ.env a b) (x : String) {v v' : Value}
    (hv : v.Renamed ρ v') : (w.bind a b x v v').Renamed ρ where
  tables a' b' h' := by
    simp only [Stores.bind, Store.table_bind, ρ.env_iff h' h, hw.lt_size_iff h]
    split
    · exact (hw.tables a b h).insert x hv
    · exact hw.tables a' b' h'
  freshEnv k := by simpa [Stores.bind, Store.bind] using hw.freshEnv k
  freshIdentity k := hw.freshIdentity k

theorem extend (hw : w.Renamed ρ) (h : ρ.env a b) (names : List String) {vs vs' : List Value}
    (hvs : List.Forall₂ (Value.Renamed ρ) vs vs') : (w.extend a b names vs vs').Renamed ρ where
  tables a' b' h' := by
    have hnew : a' = w.left.tables.size ↔ b' = w.right.tables.size :=
      ρ.env_iff h' (hw.freshEnv 0)
    simp only [Stores.extend, Store.extend, Store.table_allocate, hnew]
    split
    · exact (hw.tables a b h).insertAll names hvs
    · exact hw.tables a' b' h'
  freshEnv k := by
    have hfresh := hw.freshEnv (k + 1)
    simp only [Stores.extend, Store.extend, Store.allocate, Array.size_push]
    rwa [Nat.add_right_comm, Nat.add_right_comm w.right.tables.size]
  freshIdentity k := hw.freshIdentity k

theorem newIdentity (hw : w.Renamed ρ) : w.newIdentity.Renamed ρ where
  tables := hw.tables
  freshEnv := hw.freshEnv
  freshIdentity k := by
    have hfresh := hw.freshIdentity (k + 1)
    simp only [Stores.newIdentity, Store.newIdentity]
    rwa [Nat.add_right_comm, Nat.add_right_comm w.right.nextIdentity]

end Stores.Renamed

/-! ### Evaluation -/

/-- Expressions that look at no environment: quoted data, and calls of a quoted procedure with quoted
    arguments. -/
inductive Expr.Quiet : Expr → Prop
  | quoted (d : Value) : Quiet (.quoted d)
  | data (vs : List Value) : Quiet (.list (vs.map .quoted))

theorem Expr.Quiet.quoted_of_mem {items : List Expr} (h : (Expr.list items).Quiet) {e : Expr}
    (he : e ∈ items) : e.Quiet := by
  cases h with
  | data vs =>
    obtain ⟨d, -, rfl⟩ := List.mem_map.mp he
    exact .quoted d

theorem Expr.Quiet.head_ne_sym {k : String} {items : List Expr}
    (h : (Expr.list (.sym k :: items)).Quiet) : False := by
  generalize hitems : (Expr.sym k :: items : List Expr) = all at h
  cases h with
  | data vs => cases vs <;> simp at hitems

/-- Evaluation is the same up to renaming, in environments that go together, or in any two if the
    expression does not look at them. -/
def Renaming.simulation (ρ : Renaming) : Eval.Simulation where
  store w := w.Renamed ρ
  value _ v v' := v.Renamed ρ v'
  expr _ e a b := ρ.Fixes e.closures ∧ (ρ.env a b ∨ e.Quiet)
  value_mono _ h := h
  expr_mono _ h := h
  plain h := by
    refine .of_fixes ?_
    rw [Value.closures_eq_nil h.closureFree]
    exact fun c hc => (nomatch hc)
  isTrue h := h.isTrue_eq
  apply p h := p.apply_renamed h
  call := by
    intro w f f' hw hf
    cases hf with
    | prim p => exact .prim p
    | broken i name reason => exact .broken i i name reason
    | @closure i j a b names body hidentity henv hbody =>
      refine .closure i j ?_
      intro vs vs' hvs
      exact ⟨hw.extend henv names hvs, hbody, .inl (hw.freshEnv 0)⟩
    | _ => exact .other nofun nofun
  quoted h := .of_fixes h.1
  lookup := by
    rintro w x a b hw ⟨-, henv | hquiet⟩
    · exact hw.tables a b henv x
    · cases hquiet
  empty _ := ⟨fun c hc => (nomatch hc), .inr (.data [])⟩
  parts h hmem :=
    ⟨h.1.mono (Eval.closures_part_subset hmem),
      h.2.imp id fun hquiet => hquiet.quoted_of_mem (Eval.parts_subset _ hmem)⟩
  bind := by
    rintro w x e a b v v' hw ⟨-, henv | hquiet⟩ hv
    · exact hw.bind henv x hv
    · exact hquiet.head_ne_sym.elim
  define h :=
    ⟨by rw [Eval.closures_defineValue]; exact h.1, .inl (h.2.resolve_right fun h => h.head_ne_sym)⟩
  procedure h :=
    ⟨by rw [Eval.closures_defineProcedure]; exact h.1,
      .inl (h.2.resolve_right fun h => h.head_ne_sym)⟩
  lambda := by
    rintro w names body a b hw ⟨hfixes, henv | hquiet⟩
    · exact ⟨hw.newIdentity, .closure names (hw.freshIdentity 0) henv
        (hfixes.mono (Eval.closures_bodyOf_subset _ body))⟩
    · exact hquiet.head_ne_sym.elim

end FlatScheme
