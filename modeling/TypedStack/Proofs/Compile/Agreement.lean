import TypedStack.Proofs.Assembly.Paths
import TypedStack.Proofs.Compile.Failures
/-!
# Types and code of an expression

The type of an expression is found twice, once by looking at it and once by generating its code. The
two agree: an expression that has no type has no code for the same reason, and the type that comes
with the code is the one that was looked up, and the one of the value that the code leaves
(`Lowering.typed_code_of_expr`).
-/

set_option autoImplicit false

namespace TypedStack.Compile

open Assembly Evaluation

/-! ## Expressions without a type -/

namespace Lowering

variable {s : Surroundings} {b : Body} {err : CompileError}

/-- Generating code begins with the types of the operands that have a part in the type of the whole,
in the same order, so it stops at the same error. -/
theorem expr_fails_of_typeOf {e : Expr}
    (h : Compile.typeOf s.functions b.scope e = .error err) : expr s e b = .error err := by
  cases e with
  | call loc name args =>
    simp only [Compile.typeOf, except_bind_fails] at h
    rcases h with hf | ⟨f, -, hpure⟩
    · exact state_bind_fails.mpr (.inl (state_lift_fails.mpr hf))
    · cases hpure
  | arith loc op lhs rhs =>
    simp only [Compile.typeOf, except_bind_fails] at h
    rcases h with hl | ⟨tl, hl, hr | ⟨tr, -, hpure⟩⟩
    · exact state_bind_fails.mpr (.inl (typeOf_fails.mpr hl))
    · have htl : typeOf s lhs b = .ok (tl, b) := by
        simp [typeOf, state_bind_ok, state_get_ok, state_lift_ok, hl]
      exact state_bind_fails.mpr
        (.inr ⟨tl, b, htl, state_bind_fails.mpr (.inl (typeOf_fails.mpr hr))⟩)
    · cases hpure
  | shift loc kind lhs rhs => exact state_bind_fails.mpr (.inl (typeOf_fails.mpr h))
  | comparison loc op lhs rhs => cases h
  | «variable» loc name =>
    simp only [Compile.typeOf, except_bind_fails] at h
    rcases h with hv | ⟨v, -, hpure⟩
    · exact state_bind_fails.mpr (.inl (lookup_fails.mpr (Scope.lookup_fails.mp hv)))
    · cases hpure
  | int loc n => cases h
  | double loc bits => cases h

end Lowering

/-! ## Paths through the code of an expression

The code of a comparison branches, so a statement on the value that is left has to be made for all
paths. All jumps in the code of an expression lead forward and stay inside it. -/

theorem castCode_leadsForward (a t : ValueType) : LeadsForward (castCode a t) := by
  unfold castCode
  split
  · exact trivial
  · exact .single rfl rfl

theorem signalCode_leadsForward (relation : Relation) (n : Nat) :
    LeadsForward (signalCode relation n) := by
  simp [signalCode, LeadsForward, Op.isTerminal, Op.target?]

section

variable {fs : FunctionTable} {vars : Variables}

mutual

/-- No jump in the code of an expression leads back or out of it. The only jumps are those that turn
an ordering signal into a truth value. -/
theorem ExprCode.leadsForward : ∀ {e : Expr} {lo hi : Nat} {code : List Instr} {t : ResultType},
    ExprCode fs vars e lo code t hi → LeadsForward code
  | _, _, _, _, _, .call _ _ hargs => hargs.leadsForward.append (.single rfl rfl)
  | _, _, _, _, _, .arith hl hr _ _ =>
    ((hl.leadsForward.append (castCode_leadsForward _ _)).append
      (hr.leadsForward.append (castCode_leadsForward _ _))).append (.single rfl rfl)
  | _, _, _, _, _, .shift hl hr =>
    (((hl.leadsForward.append (castCode_leadsForward _ _)).append
      (hr.leadsForward.append (castCode_leadsForward _ _))).append (.single rfl rfl)).append
        (castCode_leadsForward _ _)
  | _, _, _, _, _, .comparison hl hr _ =>
    (((hl.leadsForward.append (castCode_leadsForward _ _)).append
      (hr.leadsForward.append (castCode_leadsForward _ _))).append (.single rfl rfl)).append
        (signalCode_leadsForward _ _)
  | _, _, _, _, _, .variable _ => .single rfl rfl
  | _, _, _, _, _, .int => .single rfl rfl
  | _, _, _, _, _, .double => .single rfl rfl

theorem ArgsCode.leadsForward : ∀ {args : List Expr} {types : List ValueType} {lo hi : Nat}
    {code : List Instr}, ArgsCode fs vars args types lo code hi → LeadsForward code
  | _, _, _, _, _, .nil => trivial
  | _, _, _, _, _, .cons he hrest =>
    (he.leadsForward.append (castCode_leadsForward _ _)).append hrest.leadsForward

end

/-- On every path the code of an expression pushes one value of its type, or none. -/
theorem ExprCode.pushes {slots : Array ValueType} (hslots : SlotsFit slots vars)
    (result : ResultType) {e : Expr} {lo hi : Nat} {code : List Instr} {t : ResultType}
    (h : ExprCode fs vars e lo code t hi) : Pushes slots result code t.toList := by
  have hruns : Runs slots result [] code [] (t.toList ++ []) [] := h.runs hslots []
  obtain ⟨ann, hcode, -, hflows⟩ := hruns
  rw [List.append_nil] at hflows
  have hclosed := hflows ann (fun x hx => hx) (by simp)
  exact hclosed.pushes hcode h.leadsForward h.exhausts.nodup

end

/-- The types of the variables of a scope, in the order of their slots, are slots that fit. -/
theorem Scope.Ordered.slotsFit {scope : Scope} (h : scope.Ordered) :
    SlotsFit (scope.bound.map (·.type)) fun name => scope.find? name := by
  intro name v hv
  obtain ⟨i, hi⟩ := Array.mem_iff_getElem?.mp (h.names.mp hv).1
  rw [h.slot hi, Array.getElem?_map, hi]
  rfl

/-! ## Agreement -/

/-- The type of an expression and its code agree. Where the type is an error, generating the code
ends with that error. Where there is code, its type is the type of the expression. In a block whose
slots hold the variables in scope, every path through the code leaves any operand stack with a value
of the type on top. -/
theorem Lowering.typed_code_of_expr (s : Surroundings) (e : Expr) (b : Body) :
    (∀ err, Compile.typeOf s.functions b.scope e = .error err → expr s e b = .error err) ∧
    ∀ t b', expr s e b = .ok (t, b') →
      Compile.typeOf s.functions b.scope e = .ok t ∧
      ∃ code, b.Appends code b' ∧ ∀ slots result,
        SlotsFit slots (fun name => b.scope.find? name) → Pushes slots result code t.toList := by
  refine ⟨fun err h => expr_fails_of_typeOf h, fun t b' h => ?_⟩
  have hreach : b.scope.Within fun name => b.scope.find? name := fun hv => hv
  obtain ⟨htype, code, happ, hcode⟩ := expr_code e b b' t h hreach
  exact ⟨htype, code, happ, fun slots result hslots => hcode.pushes hslots result⟩

/-- A function with one parameter. -/
def halfFunction : Function where
  name := "half"
  params := [⟨"x", some .int⟩]
  result := some .double
  body := []

/-- A call whose argument is a comparison, added to a shifted character. -/
def mixedExpr : Expr :=
  .arith {} .add
    (.call {} "half" [.comparison {} .lt (.variable {} "c") (.double {} 0)])
    (.shift {} .left (.variable {} "c") (.int {} 1))

/-- A body in which one character is in scope. -/
def characterBody : Body where
  scope := ({} : Scope).add ⟨"c", .char, 0, false⟩
  draft := .start "f" ⟨[], none⟩

theorem characterBody_shows : characterBody.Shows [("c", .char)] := by
  have hempty : ({} : Scope).Ordered := ⟨by simp, by simp⟩
  exact ⟨hempty.add (by simp) (by decide) rfl, rfl⟩

/-- The mixed expression has code that pushes a double on every path, with the character's slot. -/
theorem Lowering.typed_code_of_expr_mixed :
    ∃ functions b' code,
      expr ⟨functions, none⟩ mixedExpr characterBody = .ok (some .double, b') ∧
      Compile.typeOf functions characterBody.scope mixedExpr = .ok (some .double) ∧
      characterBody.Appends code b' ∧ Pushes #[.char] none code [.double] := by
  have hlists : Lists _ [halfFunction] := Lists.empty.insert rfl (by simp)
  have hoffers : Offers _ [halfFunction] := ⟨hlists, by simp [halfFunction]⟩
  have hc : Expr.HasType [halfFunction] [("c", .char)] (.variable {} "c") (some .char) :=
    .variable List.mem_cons_self
  have htyped : mixedExpr.HasType [halfFunction] [("c", .char)] (some .double) :=
    .arith (.call List.mem_cons_self rfl rfl (.cons (.comparison hc .double) .nil))
      (.shift hc .int) (by decide)
  obtain ⟨b', hb'⟩ := expr_lowers (s := ⟨_, none⟩) hoffers mixedExpr htyped _ characterBody_shows
  obtain ⟨htype, code, happ, hpush⟩ := (typed_code_of_expr _ _ _).2 _ _ hb'
  have hslots : characterBody.scope.bound.map (·.type) = #[.char] := by
    simp [characterBody, Scope.add]
  refine ⟨_, b', code, hb', htype, happ, hslots ▸ hpush _ _ ?_⟩
  exact characterBody_shows.ordered.slotsFit

end TypedStack.Compile
