import FlatScheme.Value.Output

/-!
What reaches an output that fails.

Handing over a written form is handing over its writes in a row, whatever the output does with them
(`Written.encode_eq_forM`). In an output with errors this means that the writes are issued in order
up to the first that is refused, and that its error is the result (`forM_run_eq_error_iff`). An
output of limited capacity therefore holds whole leading writes, as many as fit.
-/

namespace FlatScheme

/-! ### The writes of a walk -/

section

variable {m : Type → Type} [Monad m] [LawfulMonad m] (write : String → m Unit)

namespace Value

mutual

theorem forM_writesBefore : ∀ (v : Value) (after : List String),
    forM (v.writesBefore after) write = (v.encode write >>= fun _ => forM after write)
  | .emptyPair, after => by simp [writesBefore, encode]
  | .pair car cdr, after => by
    simp [writesBefore, encode, forM_writesBefore car, forM_tailWrites cdr]
  | .nil, after | .num n, after | .str s, after | .sym x, after | .bool b, after | .prim p, after
  | .broken i x r, after | .closure i e ps b, after => by simp [writesBefore, encode]

theorem forM_tailWrites : ∀ (v : Value) (after : List String),
    forM (v.tailWrites after) write = (v.encodeTail write >>= fun _ => forM after write)
  | .pair car cdr, after => by
    simp [tailWrites, encodeTail, forM_writesBefore car, forM_tailWrites cdr]
  | .nil, after | .emptyPair, after | .num n, after | .str s, after | .sym x, after
  | .bool b, after | .prim p, after | .broken i x r, after | .closure i e ps b, after => by
    simp [tailWrites, encodeTail]

end

end Value

namespace Expr

theorem forM_quoted (d : Value) (after : List String) :
    forM ((quoted d).writesBefore after) write =
      ((quoted d).encode write >>= fun _ => forM after write) := by
  cases d <;> simp [writesBefore, encode, Value.forM_writesBefore]

mutual

theorem forM_writesBefore : ∀ (x : Expr) (after : List String),
    forM (x.writesBefore after) write = (x.encode write >>= fun _ => forM after write)
  | .quoted d, after => forM_quoted write d after
  | .list (x :: xs), after => by
    simp [writesBefore, encode, forM_writesBefore x, forM_restWrites xs]
  | .absent, after | .num n, after | .str s, after | .sym x, after | .list [], after => by
    simp [writesBefore, encode]

theorem forM_restWrites : ∀ (xs : List Expr) (after : List String),
    forM (restWrites xs after) write = (encodeRest write xs >>= fun _ => forM after write)
  | [], after => by simp [restWrites, encodeRest]
  | x :: xs, after => by
    simp [restWrites, encodeRest, forM_writesBefore x, forM_restWrites xs]

end

end Expr

/-- Handing over a written form is handing over its writes, one after the other. -/
theorem Written.encode_eq_forM (x : Written) : x.encode write = forM x.writes write := by
  cases x with
  | value v => simp [encode, writes, Value.writes, Value.forM_writesBefore]
  | expr e => simp [encode, writes, Expr.writes, Expr.forM_writesBefore]

end

/-- The text is what an output that takes everything holds in the end. -/
theorem forM_appendText (ws : List String) (t : String) :
    (forM ws appendText).run t = ((), t ++ String.join ws) := by
  induction ws generalizing t with
  | nil =>
    rw [String.join_nil, String.append_empty]
    rfl
  | cons w ws ih =>
    rw [List.forM_cons, String.join_cons, ← String.append_assoc, ← ih]
    rfl

/-! ### Outputs that refuse -/

section

variable {ε σ : Type} (write : String → EStateM ε σ Unit)

theorem run_forM_of_ok {w : String} {s s₁ : σ} (h : (write w).run s = .ok () s₁)
    (ws : List String) : (forM (w :: ws) write).run s = (forM ws write).run s₁ := by
  rw [List.forM_cons, EStateM.run_bind, h]

theorem run_forM_of_error {w : String} {s s₁ : σ} {e : ε} (h : (write w).run s = .error e s₁)
    (ws : List String) : (forM (w :: ws) write).run s = .error e s₁ := by
  rw [List.forM_cons, EStateM.run_bind, h]

/-- All writes are accepted in order, each in the state that the one before it has led to. -/
inductive Accepts : σ → List String → σ → Prop
  | nil (s : σ) : Accepts s [] s
  | cons {s s₁ s₂ : σ} {w : String} {ws : List String} (first : (write w).run s = .ok () s₁)
      (others : Accepts s₁ ws s₂) : Accepts s (w :: ws) s₂

/-- Writes are issued without an error just when all of them are accepted. -/
theorem forM_run_eq_ok_iff {ws : List String} {s s' : σ} :
    (forM ws write).run s = .ok () s' ↔ Accepts write s ws s' := by
  constructor
  · intro h
    induction ws generalizing s with
    | nil =>
      cases h
      exact .nil _
    | cons w ws ih =>
      cases hw : (write w).run s with
      | ok _ s₁ =>
        rw [run_forM_of_ok write hw] at h
        exact .cons hw (ih h)
      | error e s₁ =>
        rw [run_forM_of_error write hw] at h
        cases h
  · intro h
    induction h with
    | nil s => rfl
    | cons first _ ih => rw [run_forM_of_ok write first, ih]

/-- The error of issuing writes is that of the first one refused, and nothing is issued behind it. -/
theorem forM_run_eq_error_iff {ws : List String} {s s' : σ} {e : ε} :
    (forM ws write).run s = .error e s' ↔ ∃ before w after s₁, ws = before ++ w :: after ∧
      Accepts write s before s₁ ∧ (write w).run s₁ = .error e s' := by
  constructor
  · intro h
    induction ws generalizing s with
    | nil => cases h
    | cons w ws ih =>
      cases hw : (write w).run s with
      | ok _ s₁ =>
        rw [run_forM_of_ok write hw] at h
        obtain ⟨before, v, after, s₂, rfl, hbefore, hv⟩ := ih h
        exact ⟨w :: before, v, after, s₂, rfl, .cons hw hbefore, hv⟩
      | error e s₁ =>
        rw [run_forM_of_error write hw] at h
        cases h
        exact ⟨[], w, ws, s, rfl, .nil s, hw⟩
  · rintro ⟨before, w, after, s₁, rfl, hbefore, hw⟩
    induction hbefore with
    | nil s => exact run_forM_of_error write hw after
    | cons first _ ih => rw [List.cons_append, run_forM_of_ok write first, ih hw]

end

/-- An output that accepts `k` writes and fails from then on, the call number `i` with `failure i`.
    Its state is the list of the writes it has been called with. -/
def failingFrom {ε : Type} (k : Nat) (failure : Nat → ε) (w : String) :
    EStateM ε (List String) Unit := fun issued =>
  if issued.length < k then .ok () (issued ++ [w])
  else .error (failure issued.length) (issued ++ [w])

theorem forM_failingFrom {ε : Type} {k : Nat} (failure : Nat → ε) (ws : List String)
    {issued : List String} (h : issued.length ≤ k) :
    (forM ws (failingFrom k failure)).run issued =
      if issued.length + ws.length ≤ k then .ok () (issued ++ ws)
      else .error (failure k) (issued ++ ws.take (k + 1 - issued.length)) := by
  induction ws generalizing issued with
  | nil => simp [h, pure, EStateM.pure, EStateM.run]
  | cons w ws ih =>
    by_cases hk : issued.length < k
    · have hstep : (failingFrom k failure w).run issued = .ok () (issued ++ [w]) := if_pos hk
      have hlength : (issued ++ [w]).length = issued.length + 1 := by simp
      have htake : k + 1 - issued.length = k + 1 - (issued ++ [w]).length + 1 := by omega
      rw [run_forM_of_ok _ hstep, htake, List.take_succ_cons, ih (by omega), List.append_assoc,
        List.append_assoc, hlength, List.length_cons, Nat.add_right_comm, Nat.add_assoc]
      rfl
    · obtain rfl : issued.length = k := by omega
      have hstep : (failingFrom issued.length failure w).run issued =
          .error (failure issued.length) (issued ++ [w]) := if_neg hk
      rw [run_forM_of_error _ hstep, if_neg (by simp)]
      simp

/-! ### Outputs of limited capacity -/

/-- Hand writes to an output that has room for `room` more bytes: what it takes, and whether it took
    everything. -/
def deliver : Nat → List String → List String × Bool
  | _, [] => ([], true)
  | room, w :: ws =>
    if w.utf8ByteSize ≤ room then
      let (taken, complete) := deliver (room - w.utf8ByteSize) ws
      (w :: taken, complete)
    else ([], false)

/-- What an output with room for `room` bytes takes: everything, or the longest row of leading writes
    that fits. -/
theorem deliver_cases (room : Nat) (ws : List String) :
    ((String.join ws).utf8ByteSize ≤ room ∧ deliver room ws = (ws, true)) ∨
      (room < (String.join ws).utf8ByteSize ∧ ∃ k, deliver room ws = (ws.take k, false) ∧
        (String.join (ws.take k)).utf8ByteSize ≤ room ∧
        ∀ j, (String.join (ws.take j)).utf8ByteSize ≤ room → j ≤ k) := by
  induction ws generalizing room with
  | nil => exact .inl ⟨by simp [String.join], rfl⟩
  | cons w ws ih =>
    rw [String.join_cons, String.utf8ByteSize_append, deliver]
    by_cases hw : w.utf8ByteSize ≤ room
    · rw [if_pos hw]
      rcases ih (room - w.utf8ByteSize) with ⟨hfits, htaken⟩ | ⟨hlong, k, htaken, hfits, hlongest⟩
      · exact .inl ⟨by omega, by rw [htaken]⟩
      · refine .inr ⟨by omega, k + 1, by rw [htaken, List.take_succ_cons], ?_, fun j hj => ?_⟩
        · rw [List.take_succ_cons, String.join_cons, String.utf8ByteSize_append]
          omega
        · cases j with
          | zero => exact Nat.zero_le _
          | succ j =>
            rw [List.take_succ_cons, String.join_cons, String.utf8ByteSize_append] at hj
            exact Nat.succ_le_succ (hlongest j (by omega))
    · rw [if_neg hw]
      refine .inr ⟨by omega, 0, rfl, by simp [String.join], fun j hj => ?_⟩
      cases j with
      | zero => exact Nat.le_refl _
      | succ j =>
        rw [List.take_succ_cons, String.join_cons, String.utf8ByteSize_append] at hj
        omega

/-- An output of limited capacity takes what is delivered to it and refuses the next write. -/
theorem forM_limited (ws : List String) (t : String) (room : Nat) :
    (forM ws Limited.write).run ⟨t, room, false⟩ =
      let taken := String.join (deliver room ws).1
      if (deliver room ws).2 then .ok () ⟨t ++ taken, room - taken.utf8ByteSize, false⟩
      else .error () ⟨t ++ taken, room - taken.utf8ByteSize, true⟩ := by
  induction ws generalizing t room with
  | nil => simp [deliver, String.join, pure, EStateM.pure, EStateM.run]
  | cons w ws ih =>
    rw [deliver]
    by_cases hw : w.utf8ByteSize ≤ room
    · have hstep : (Limited.write w).run ⟨t, room, false⟩ =
          .ok () ⟨t ++ w, room - w.utf8ByteSize, false⟩ := if_pos ⟨rfl, hw⟩
      rw [run_forM_of_ok _ hstep, if_pos hw, ih]
      simp only [String.join_cons, String.utf8ByteSize_append, String.append_assoc, Nat.sub_sub]
    · have hstep : (Limited.write w).run ⟨t, room, false⟩ = .error () ⟨t, room, true⟩ :=
        if_neg fun h => hw h.2
      rw [run_forM_of_error _ hstep, if_neg hw]
      simp [String.join]

/-! ### Prefixes -/

theorem Written.join_writes (x : Written) : String.join x.writes = x.text := by
  cases x <;> rfl

/-- Encoding is correct up to the first failure. Every value or expression has one list of writes,
    which make up its text. Whatever the output, they are issued in order: without an error just when
    all are accepted, and else with the error of the first that is refused, in the state which that
    refusal has led to. An output that accepts `k` writes and fails from then on is called with the
    first `k` writes and one more. An output of `n` bytes takes the whole text just when it is no
    longer than that, and else the longest row of leading writes that fits. -/
theorem encode_stops_at_first_failure (x : Written) : ∃ ws : List String,
    String.join ws = x.text ∧ (x.encode appendText).run "" = ((), x.text) ∧
    (∀ (ε σ : Type) (write : String → EStateM ε σ Unit) (s s' : σ),
      ((x.encode write).run s = .ok () s' ↔ Accepts write s ws s') ∧
      ∀ e, (x.encode write).run s = .error e s' ↔ ∃ before w after s₁, ws = before ++ w :: after ∧
        Accepts write s before s₁ ∧ (write w).run s₁ = .error e s') ∧
    (∀ (ε : Type) (k : Nat) (failure : Nat → ε), (x.encode (failingFrom k failure)).run [] =
      if ws.length ≤ k then .ok () ws else .error (failure k) (ws.take (k + 1))) ∧
    ∀ n : Nat,
      (x.text.utf8ByteSize ≤ n ∧ (x.encode Limited.write).run (.ofCapacity n) =
        .ok () ⟨x.text, n - x.text.utf8ByteSize, false⟩) ∨
      (n < x.text.utf8ByteSize ∧ ∃ k, (x.encode Limited.write).run (.ofCapacity n) =
          .error () ⟨String.join (ws.take k), n - (String.join (ws.take k)).utf8ByteSize, true⟩ ∧
        (String.join (ws.take k)).utf8ByteSize ≤ n ∧
        ∀ j, (String.join (ws.take j)).utf8ByteSize ≤ n → j ≤ k) := by
  refine ⟨x.writes, x.join_writes, ?_, fun ε σ write s s' => ⟨?_, fun e => ?_⟩,
    fun ε k failure => ?_, fun n => ?_⟩
  · rw [x.encode_eq_forM, forM_appendText, x.join_writes, String.empty_append]
  · rw [x.encode_eq_forM, forM_run_eq_ok_iff]
  · rw [x.encode_eq_forM, forM_run_eq_error_iff]
  · rw [x.encode_eq_forM, forM_failingFrom failure x.writes (Nat.zero_le k)]
    simp
  · have hrun := forM_limited x.writes "" n
    rw [x.encode_eq_forM, Limited.ofCapacity, hrun, ← x.join_writes]
    rcases deliver_cases n x.writes with ⟨hfits, htaken⟩ | ⟨hlong, k, htaken, hfits, hlongest⟩
    · exact .inl ⟨hfits, by simp [htaken]⟩
    · exact .inr ⟨hlong, k, by simp [htaken], hfits, hlongest⟩

/-- The list `(a "é")` in an output of five bytes: the string of four bytes does not fit behind the
    first three, and the parenthesis that would is not issued any more. -/
example : ((Written.value (.pair (.sym "a") (.pair (.str "é") .emptyPair))).encode
    Limited.write).run (.ofCapacity 5) = .error () ⟨"(a ", 2, true⟩ := by cbv

end FlatScheme
