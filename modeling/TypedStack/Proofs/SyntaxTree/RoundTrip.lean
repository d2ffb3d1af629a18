import TypedStack.Proofs.SyntaxTree.Records
/-!
# Trees read back

The interchange text of a module is read back as the same module, for every text, integer, location,
missing part and order that it holds (`interchange_round_trip`). Two things are asked of the module:
its binary numbers are printed in a way that reads back, and its text is not too deeply nested.

Each kind of node is treated by itself. What is written is made of numbers that can be read and of
texts (`plain_stmt`), so it can be read as JSON and passes the checks that are made inside
statements; and where there is room for a node, the reader finds its fields and then, one level
down, its parts (`stmt?_toJson`).

Both conditions are needed. The reader rounds twice, and there are binary numbers whose shortest
digits it takes for their neighbour. It refuses what is nested beyond its limit, which the writer
does not know about.
-/

set_option autoImplicit false

namespace TypedStack

open SyntaxTree

/-! ## Numbers in a tree

The places where a binary number can stand. The first condition of the theorem is about these and
about nothing else. -/

mutual

/-- The binary numbers that stand in an expression. -/
def Expr.doubles : Expr → List UInt64
  | .call _ _ args => exprsDoubles args
  | .arith _ _ a b | .shift _ _ a b | .comparison _ _ a b => a.doubles ++ b.doubles
  | .variable _ _ | .int _ _ => []
  | .double _ bits => [bits]

/-- The binary numbers that stand in a list of expressions. -/
def exprsDoubles : List Expr → List UInt64
  | [] => []
  | e :: rest => e.doubles ++ exprsDoubles rest

end

/-- The binary numbers in a part that may be missing. -/
def optionDoubles {α : Type} (doubles : α → List UInt64) : Option α → List UInt64
  | none => []
  | some a => doubles a

mutual

/-- The binary numbers that stand in a statement. -/
def Stmt.doubles : Stmt → List UInt64
  | .read _ _ | .abort _ => []
  | .print _ v | .assign _ _ v | .assert _ v => v.doubles
  | .declare _ _ _ init => optionDoubles Expr.doubles init
  | .ret _ v => optionDoubles Expr.doubles v
  | .call _ _ args => exprsDoubles args
  | .loop _ body c => stmtsDoubles body ++ c.doubles
  | .branch _ _ arms none => armsDoubles arms
  | .branch _ _ arms (some body) => armsDoubles arms ++ stmtsDoubles body

/-- The binary numbers that stand in a list of statements. -/
def stmtsDoubles : List Stmt → List UInt64
  | [] => []
  | s :: rest => s.doubles ++ stmtsDoubles rest

/-- The binary numbers that stand in the arms of a branch, in their tests and in their bodies. -/
def armsDoubles : List BranchArm → List UInt64
  | [] => []
  | .mk test body :: rest => test.value.doubles ++ stmtsDoubles body ++ armsDoubles rest

end

/-- The binary numbers that stand in a module. -/
def Module.doubles (m : Module) : List UInt64 :=
  m.functions.flatMap (fun f => stmtsDoubles f.body) ++
    optionDoubles (fun e => stmtsDoubles e.body) m.entry

namespace SyntaxTree

-- With what a written node gives back for its kind, its location and its fields, the reader
-- computes.
attribute [local simp] locationOf?_node kindOf?_node fieldsOf?_node record?_record choice?_spell
  text?_ofText arithOps_spelled shiftKinds_spelled comparisons_spelled types_spelled

theorem list?_cons {α : Type} {read : Json → Option α} {v : Json} {items : List Json} {a : α}
    {rest : List α} (ha : read v = some a) (hrest : list? read (.array items) = some rest) :
    list? read (.array (v :: items)) = some (a :: rest) := by
  simp only [list?] at hrest ⊢
  simp [ha, hrest]

/-! ## Expressions

Two recursions over expressions. The first says that the text can be read as JSON at all, the second
that the tree is found in it. -/

/-- A text is printed and read as a string, whatever its characters. -/
theorem plain_text (s : String) : (Json.ofText s).Plain Json.Number.Readable := trivial

theorem plain_double {bits : UInt64} (h : Json.ReadsBack bits) :
    (Json.ofDouble bits).Plain Json.Number.Readable := by
  obtain ⟨n, hn, hreadable, -⟩ := h.readable
  simpa [Json.ofDouble, hn, Json.Plain, Json.Scalar.Plain] using hreadable

/-- A number that reads back is read as itself. -/
theorem double?_ofDouble {bits : UInt64} (h : Json.ReadsBack bits) :
    (Json.ofDouble bits).double? = some bits := by
  obtain ⟨n, hn, -, hdouble⟩ := h.readable
  simpa [Json.ofDouble, hn, Json.double?] using hdouble

mutual

/-- What is written for an expression can be read as JSON and is sound. -/
theorem plain_expr : ∀ (e : Expr), (∀ bits ∈ e.doubles, Json.ReadsBack bits) →
    e.toJson.Plain Json.Number.Readable
  | .call l name args, h => by
    have hargs := plain_exprs args (by simpa [Expr.doubles] using h)
    unfold Expr.toJson
    apply plain_node
    simp [plain_text, hargs]
  | .arith l op a b, h | .shift l op a b, h | .comparison l op a b, h => by
    simp only [Expr.doubles, List.forall_mem_append] at h
    have ha := plain_expr a h.1
    have hb := plain_expr b h.2
    unfold Expr.toJson
    apply plain_node
    simp [plain_text, ha, hb]
  | .variable l name, _ => by
    unfold Expr.toJson
    apply plain_node
    simp [plain_text]
  | .int l n, _ => by
    unfold Expr.toJson
    apply plain_node
    simp [plain_int64]
  | .double l bits, h => by
    unfold Expr.toJson
    apply plain_node
    simpa [Expr.doubles] using plain_double (h bits (by simp [Expr.doubles]))

theorem plain_exprs : ∀ (es : List Expr), (∀ bits ∈ exprsDoubles es, Json.ReadsBack bits) →
    (Json.array (exprsJson es)).Plain Json.Number.Readable
  | [], _ => trivial
  | e :: rest, h => by
    simp only [exprsDoubles, List.forall_mem_append] at h
    exact ⟨plain_expr e h.1, plain_exprs rest h.2⟩

end

mutual

/-- An expression is read back. By the shape of the expression: the depth of the text bounds the
number of expressions inside each other, so there is fuel left for the operands. -/
theorem expr?_toJson : ∀ (e : Expr) {fuel : Nat}, (∀ bits ∈ e.doubles, Json.ReadsBack bits) →
    e.toJson.depth ≤ fuel → expr? fuel e.toJson = some e
  | .call l name args, fuel, h, hdepth => by
    unfold Expr.toJson at hdepth ⊢
    obtain ⟨fuel, rfl, hroom⟩ := room_of_node hdepth
    have hargs := exprs?_toJson args (by simpa [Expr.doubles] using h)
      (hroom ("args", _) (by simp))
    rw [nodeJson_eq, expr?]
    simp [exprKinds, orDefault?, hargs]
  | .arith l op a b, fuel, h, hdepth | .shift l op a b, fuel, h, hdepth
  | .comparison l op a b, fuel, h, hdepth => by
    unfold Expr.toJson at hdepth ⊢
    obtain ⟨fuel, rfl, hroom⟩ := room_of_node hdepth
    simp only [Expr.doubles, List.forall_mem_append] at h
    have ha := expr?_toJson a h.1 (hroom ("lhs", _) (by simp))
    have hb := expr?_toJson b h.2 (hroom ("rhs", _) (by simp))
    rw [nodeJson_eq, expr?]
    simp [exprKinds, ha, hb]
  | .variable l name, fuel, _, hdepth => by
    unfold Expr.toJson at hdepth ⊢
    obtain ⟨fuel, rfl, -⟩ := room_of_node hdepth
    rw [nodeJson_eq, expr?]
    simp [exprKinds]
  | .int l n, fuel, _, hdepth => by
    unfold Expr.toJson at hdepth ⊢
    obtain ⟨fuel, rfl, -⟩ := room_of_node hdepth
    rw [nodeJson_eq, expr?]
    simp [exprKinds, int64?_ofInt]
  | .double l bits, fuel, h, hdepth => by
    unfold Expr.toJson at hdepth ⊢
    obtain ⟨fuel, rfl, -⟩ := room_of_node hdepth
    have hbits := double?_ofDouble (h bits (by simp [Expr.doubles]))
    rw [nodeJson_eq, expr?]
    simp [exprKinds, hbits]

/-- The expressions of a list are read back. An array is a level of its own, but reading it takes no
fuel. -/
theorem exprs?_toJson : ∀ (es : List Expr) {fuel : Nat},
    (∀ bits ∈ exprsDoubles es, Json.ReadsBack bits) → (Json.array (exprsJson es)).depth ≤ fuel →
    list? (expr? fuel) (.array (exprsJson es)) = some es
  | [], _, _, _ => rfl
  | e :: rest, fuel, h, hdepth => by
    simp only [exprsDoubles, List.forall_mem_append] at h
    rw [exprsJson, Json.depth_array_cons] at hdepth
    exact list?_cons (expr?_toJson e h.1 (Nat.le_of_lt hdepth.1)) (exprs?_toJson rest h.2 hdepth.2)

end

/-- A part that may be missing is read back, since what is there is not written as null. -/
theorem nullable?_optionJson {α : Type} {toJson : α → Json} {read : Json → Option α} {o : Option α}
    (h : ∀ a, o = some a → (toJson a).isNull = false ∧ read (toJson a) = some a) :
    nullable? read (some (optionJson toJson o)) = some o := by
  cases o with
  | none => rfl
  | some a =>
    obtain ⟨hnull, hread⟩ := h a rfl
    simp [nullable?, optionJson, hnull, hread]

/-- An expression is written as an object, so no expression is taken for a missing part. -/
theorem isNull_expr (e : Expr) : e.toJson.isNull = false := by
  cases e <;> simp only [Expr.toJson] <;> rfl

theorem plain_optionExpr {o : Option Expr}
    (h : ∀ bits ∈ optionDoubles Expr.doubles o, Json.ReadsBack bits) :
    (optionJson Expr.toJson o).Plain Json.Number.Readable := by
  cases o with
  | none => trivial
  | some e => exact plain_expr e h

theorem optionExpr?_toJson {o : Option Expr} {fuel : Nat}
    (h : ∀ bits ∈ optionDoubles Expr.doubles o, Json.ReadsBack bits)
    (hdepth : (optionJson Expr.toJson o).depth ≤ fuel) :
    nullable? (expr? fuel) (some (optionJson Expr.toJson o)) = some o := by
  apply nullable?_optionJson
  intro e he
  subst he
  exact ⟨isNull_expr e, expr?_toJson e h hdepth⟩

/-! ## Statements

As for expressions. Lists of statements and arms of branches have statements inside them, so that
the three recursions are one. -/

/-- What is written for the test of an arm can be read as JSON and is sound. -/
theorem plain_test (t : BranchTest) (h : ∀ bits ∈ t.value.doubles, Json.ReadsBack bits) :
    t.toJson.Plain Json.Number.Readable := by
  cases t with
  | compare op v =>
    have hv := plain_expr v h
    rw [BranchTest.toJson, Json.plain_record]
    simp [plain_text, hv]
  | equals v =>
    have hv := plain_expr v h
    rw [BranchTest.toJson, Json.plain_record]
    simp [plain_text, hv]

mutual

/-- What is written for a statement can be read as JSON and is sound. -/
theorem plain_stmt : ∀ (s : Stmt), (∀ bits ∈ s.doubles, Json.ReadsBack bits) →
    s.toJson.Plain Json.Number.Readable
  | .read l target, _ => by
    unfold Stmt.toJson
    apply plain_node
    simp [plain_text]
  | .print l v, h | .assign l name v, h | .assert l v, h => by
    have hv := plain_expr v (by simpa [Stmt.doubles] using h)
    unfold Stmt.toJson
    apply plain_node
    simp [plain_text, hv]
  | .declare l name t init, h => by
    have hinit : (optionJson Expr.toJson init).Plain _ :=
      plain_optionExpr (by simpa [Stmt.doubles] using h)
    unfold Stmt.toJson
    apply plain_node
    simp [plain_text, typeJson, hinit]
  | .ret l v, h => by
    have hv : (optionJson Expr.toJson v).Plain _ :=
      plain_optionExpr (by simpa [Stmt.doubles] using h)
    unfold Stmt.toJson
    apply plain_node
    simp [hv]
  | .call l name args, h => by
    have hargs := plain_exprs args (by simpa [Stmt.doubles] using h)
    unfold Stmt.toJson
    apply plain_node
    simp [plain_text, hargs]
  | .abort l, _ => by
    unfold Stmt.toJson
    apply plain_node
    simp
  | .loop l body c, h => by
    simp only [Stmt.doubles, List.forall_mem_append] at h
    have hbody := plain_stmts body h.1
    have hc := plain_expr c h.2
    unfold Stmt.toJson
    apply plain_node
    simp [hbody, hc]
  | .branch l target arms none, h => by
    have harms := plain_arms arms (by simpa [Stmt.doubles] using h)
    have hnull : Json.null.Plain Json.Number.Readable := trivial
    unfold Stmt.toJson
    apply plain_node
    simp [plain_text, harms, hnull]
  | .branch l target arms (some body), h => by
    simp only [Stmt.doubles, List.forall_mem_append] at h
    have harms := plain_arms arms h.1
    have hbody := plain_stmts body h.2
    unfold Stmt.toJson
    apply plain_node
    simp [plain_text, harms, hbody]

theorem plain_stmts : ∀ (ss : List Stmt), (∀ bits ∈ stmtsDoubles ss, Json.ReadsBack bits) →
    (Json.array (stmtsJson ss)).Plain Json.Number.Readable
  | [], _ => trivial
  | s :: rest, h => by
    simp only [stmtsDoubles, List.forall_mem_append] at h
    exact ⟨plain_stmt s h.1, plain_stmts rest h.2⟩

/-- The same for every arm of a branch. An arm is a record with two fields and has no location. -/
theorem plain_arms : ∀ (arms : List BranchArm), (∀ bits ∈ armsDoubles arms, Json.ReadsBack bits) →
    (Json.array (armsJson arms)).Plain Json.Number.Readable
  | [], _ => trivial
  | .mk test body :: rest, h => by
    simp only [armsDoubles, List.forall_mem_append] at h
    have htest := plain_test test h.1.1
    have hbody := plain_stmts body h.1.2
    refine ⟨Json.plain_record.mpr ?_, plain_arms rest h.2⟩
    simp [htest, hbody]

end

/-- A test has a kind but no location, so it is no node like the others. -/
theorem test?_toJson {t : BranchTest} {fuel : Nat}
    (h : ∀ bits ∈ t.value.doubles, Json.ReadsBack bits) (hdepth : t.toJson.depth ≤ fuel + 1) :
    test? fuel t.toJson = some t := by
  cases t with
  | compare op v =>
    rw [BranchTest.toJson, Json.depth_record] at hdepth
    have hv := expr?_toJson v h (hdepth ("value", _) (by simp))
    have hkind : kindOf? testKinds (Json.named [("kind", .ofText "compare"),
        ("op", .ofText (spell comparisons op)), ("value", v.toJson)]) = some "compare" :=
      kindOf?_named (by simp) (by simp) (by decide)
    have hfields : fieldsOf? ["op", "value"] (Json.named [("kind", .ofText "compare"),
        ("op", .ofText (spell comparisons op)), ("value", v.toJson)]) = some [some _, some _] :=
      fieldsOf?_named (by simp) fun field hfield => List.mem_cons_of_mem _ hfield
    rw [BranchTest.toJson, Json.record_eq, test?]
    simp [hkind, hfields, hv]
  | equals v =>
    rw [BranchTest.toJson, Json.depth_record] at hdepth
    have hv := expr?_toJson v h (hdepth ("value", _) (by simp))
    have hkind : kindOf? testKinds (Json.named [("kind", .ofText "value"), ("value", v.toJson)]) =
        some "value" :=
      kindOf?_named (by simp) (by simp) (by decide)
    have hfields : fieldsOf? ["value"] (Json.named [("kind", .ofText "value"),
        ("value", v.toJson)]) = some [some _] :=
      fieldsOf?_named (by simp) fun field hfield => List.mem_cons_of_mem _ hfield
    rw [BranchTest.toJson, Json.record_eq, test?]
    simp [hkind, hfields, hv]

mutual

/-- A statement is read back. By the shape of the statement, with fuel that the depth of the text
bounds as before. -/
theorem stmt?_toJson : ∀ (s : Stmt) {fuel : Nat}, (∀ bits ∈ s.doubles, Json.ReadsBack bits) →
    s.toJson.depth ≤ fuel → stmt? fuel s.toJson = some s
  | .read l target, fuel, _, hdepth => by
    unfold Stmt.toJson at hdepth ⊢
    obtain ⟨fuel, rfl, -⟩ := room_of_node hdepth
    rw [nodeJson_eq, stmt?]
    simp [stmtKinds]
  | .print l v, fuel, h, hdepth | .assign l name v, fuel, h, hdepth => by
    unfold Stmt.toJson at hdepth ⊢
    obtain ⟨fuel, rfl, hroom⟩ := room_of_node hdepth
    have hv := expr?_toJson v (by simpa [Stmt.doubles] using h) (hroom ("value", _) (by simp))
    rw [nodeJson_eq, stmt?]
    simp [stmtKinds, hv]
  | .declare l name t init, fuel, h, hdepth => by
    unfold Stmt.toJson at hdepth ⊢
    obtain ⟨fuel, rfl, hroom⟩ := room_of_node hdepth
    have hinit := optionExpr?_toJson (by simpa [Stmt.doubles] using h)
      (hroom ("init", optionJson Expr.toJson init) (by simp))
    rw [nodeJson_eq, stmt?]
    simp [stmtKinds, typeJson, hinit]
  | .ret l v, fuel, h, hdepth => by
    unfold Stmt.toJson at hdepth ⊢
    obtain ⟨fuel, rfl, hroom⟩ := room_of_node hdepth
    have hv := optionExpr?_toJson (by simpa [Stmt.doubles] using h)
      (hroom ("value", optionJson Expr.toJson v) (by simp))
    rw [nodeJson_eq, stmt?]
    simp [stmtKinds, hv]
  | .call l name args, fuel, h, hdepth => by
    unfold Stmt.toJson at hdepth ⊢
    obtain ⟨fuel, rfl, hroom⟩ := room_of_node hdepth
    have hargs := exprs?_toJson args (by simpa [Stmt.doubles] using h)
      (hroom ("args", _) (by simp))
    rw [nodeJson_eq, stmt?]
    simp [stmtKinds, orDefault?, hargs]
  | .assert l c, fuel, h, hdepth => by
    unfold Stmt.toJson at hdepth ⊢
    obtain ⟨fuel, rfl, hroom⟩ := room_of_node hdepth
    have hc := expr?_toJson c (by simpa [Stmt.doubles] using h) (hroom ("condition", _) (by simp))
    rw [nodeJson_eq, stmt?]
    simp [stmtKinds, hc]
  | .abort l, fuel, _, hdepth => by
    unfold Stmt.toJson at hdepth ⊢
    obtain ⟨fuel, rfl, -⟩ := room_of_node hdepth
    rw [nodeJson_eq, stmt?]
    simp [stmtKinds]
  | .loop l body c, fuel, h, hdepth => by
    unfold Stmt.toJson at hdepth ⊢
    obtain ⟨fuel, rfl, hroom⟩ := room_of_node hdepth
    simp only [Stmt.doubles, List.forall_mem_append] at h
    have hbody := stmts?_toJson body h.1 (hroom ("body", _) (by simp))
    have hc := expr?_toJson c h.2 (hroom ("condition", _) (by simp))
    rw [nodeJson_eq, stmt?]
    simp [stmtKinds, hbody, hc]
  | .branch l target arms none, fuel, h, hdepth => by
    unfold Stmt.toJson at hdepth ⊢
    obtain ⟨fuel, rfl, hroom⟩ := room_of_node hdepth
    have harms := arms?_toJson arms (by simpa [Stmt.doubles] using h)
      (hroom ("paths", _) (by simp))
    rw [nodeJson_eq, stmt?]
    simp [stmtKinds, harms, nullable?, Json.null, Json.isNull]
  | .branch l target arms (some body), fuel, h, hdepth => by
    unfold Stmt.toJson at hdepth ⊢
    obtain ⟨fuel, rfl, hroom⟩ := room_of_node hdepth
    simp only [Stmt.doubles, List.forall_mem_append] at h
    have harms := arms?_toJson arms h.1 (hroom ("paths", _) (by simp))
    have hbody := stmts?_toJson body h.2 (hroom ("default", _) (by simp))
    rw [nodeJson_eq, stmt?]
    simp [stmtKinds, harms, hbody, nullable?, Json.isNull]

theorem stmts?_toJson : ∀ (ss : List Stmt) {fuel : Nat},
    (∀ bits ∈ stmtsDoubles ss, Json.ReadsBack bits) → (Json.array (stmtsJson ss)).depth ≤ fuel →
    list? (stmt? fuel) (.array (stmtsJson ss)) = some ss
  | [], _, _, _ => rfl
  | s :: rest, fuel, h, hdepth => by
    simp only [stmtsDoubles, List.forall_mem_append] at h
    rw [stmtsJson, Json.depth_array_cons] at hdepth
    exact list?_cons (stmt?_toJson s h.1 (Nat.le_of_lt hdepth.1)) (stmts?_toJson rest h.2 hdepth.2)

/-- The arms of a branch are read back, each with its test and its body. -/
theorem arms?_toJson : ∀ (arms : List BranchArm) {fuel : Nat},
    (∀ bits ∈ armsDoubles arms, Json.ReadsBack bits) → (Json.array (armsJson arms)).depth ≤ fuel →
    list? (arm? (test? fuel) (stmt? fuel)) (.array (armsJson arms)) = some arms
  | [], _, _, _ => rfl
  | .mk test body :: rest, fuel, h, hdepth => by
    simp only [armsDoubles, List.forall_mem_append] at h
    rw [armsJson, Json.depth_array_cons] at hdepth
    -- an arm is no statement and costs no fuel, although its text is one level deeper
    have hparts := Json.depth_record.mp (Nat.le_succ_of_le (Nat.le_of_lt hdepth.1))
    have htest := test?_toJson h.1.1
      (Nat.le_succ_of_le (hparts ("condition", test.toJson) (by simp)))
    have hbody := stmts?_toJson body h.1.2 (hparts ("body", _) (by simp))
    refine list?_cons ?_ (arms?_toJson rest h.2 hdepth.2)
    simp [arm?, htest, hbody]

end

/-- A statement is written as an object, so no statement is taken for a missing part. -/
theorem exists_fields (s : Stmt) : ∃ fields, s.toJson = .object fields := by
  cases s with
  | branch l target arms otherwise =>
    cases otherwise <;> simp only [Stmt.toJson] <;> exact ⟨_, rfl⟩
  | _ => simp only [Stmt.toJson]; exact ⟨_, rfl⟩

/-- What the reader checks before it reads an outermost statement holds of every statement that was
written, as long as there is room. The check is made once for a statement of a function's body, and
not again for the statements inside it. -/
theorem outerStmt?_toJson {s : Stmt} {room : Nat} (hlimit : room ≤ depthLimit)
    (h : ∀ bits ∈ s.doubles, Json.ReadsBack bits) (hdepth : s.toJson.depth ≤ room) :
    outerStmt? room s.toJson = some s := by
  have hread := stmt?_toJson s h (Nat.le_trans hdepth hlimit)
  have hplain := plain_stmt s h
  obtain ⟨fields, hfields⟩ := exists_fields s
  rw [hfields] at hread hplain hdepth ⊢
  -- the check of an outermost statement goes field by field, so that its location can be left out
  have hnamed := Json.plainFields_iff.mp hplain
  have hdepths := Json.fieldsDepth_le.mp (Nat.le_sub_one_of_lt hdepth)
  unfold outerStmt?
  simp only
  rw [if_pos, hread]
  rw [List.all_eq_true]
  intro field hfield
  obtain ⟨hname, hvalue⟩ := hnamed field hfield
  simp [hname, Json.isSound_of_plain _ field.2 hvalue (hdepths field hfield)]

/-- The outermost statements of a body are read back, each after the check of its own. -/
theorem outerStmts?_toJson {room : Nat} (hlimit : room ≤ depthLimit) {ss : List Stmt}
    (h : ∀ bits ∈ stmtsDoubles ss, Json.ReadsBack bits)
    (hdepth : (Json.array (stmtsJson ss)).depth ≤ room + 1) :
    list? (outerStmt? room) (.array (stmtsJson ss)) = some ss := by
  induction ss with
  | nil => rfl
  | cons s rest ih =>
    simp only [stmtsDoubles, List.forall_mem_append] at h
    rw [stmtsJson, Json.depth_array_cons] at hdepth
    exact list?_cons (outerStmt?_toJson hlimit h.1 (Nat.le_of_lt_succ hdepth.1)) (ih h.2 hdepth.2)

/-! ## Modules

From the statements up to the module. Here the limit on the depth is used up one level after
another: the module, the list of functions, the function, its body. -/

theorem list?_map {α : Type} {toJson : α → Json} {read : Json → Option α} {xs : List α}
    (h : ∀ a ∈ xs, read (toJson a) = some a) : list? read (.array (xs.map toJson)) = some xs := by
  induction xs with
  | nil => rfl
  | cons a rest ih =>
    rw [List.forall_mem_cons] at h
    exact list?_cons h.1 (ih h.2)

/-- A list is plain if what is written for its items is. -/
theorem plain_array_map {α : Type} {toJson : α → Json} {xs : List α} {P : Json.Number → Prop}
    (h : ∀ a ∈ xs, (toJson a).Plain P) : (Json.array (xs.map toJson)).Plain P := by
  rw [Json.Plain, Json.plainItems_iff]
  simpa using h

theorem param?_toJson (p : Param) : param? p.toJson = some p := by
  simp [param?, Param.toJson, typeJson]

theorem plain_param (p : Param) : p.toJson.Plain Json.Number.Readable := by
  rw [Param.toJson, Json.plain_record]
  simp [plain_text, typeJson]

theorem plain_function {f : Function} (h : ∀ bits ∈ stmtsDoubles f.body, Json.ReadsBack bits) :
    f.toJson.Plain Json.Number.Readable := by
  have hparams := plain_array_map fun p (_ : p ∈ f.params) => plain_param p
  have hbody := plain_stmts f.body h
  rw [Function.toJson, Json.plain_record]
  simp [plain_text, typeJson, hparams, hbody, plain_location]

/-- A function is read back if there is room for it two levels below the top. -/
theorem function?_toJson {f : Function} (h : ∀ bits ∈ stmtsDoubles f.body, Json.ReadsBack bits)
    (hdepth : f.toJson.depth ≤ depthLimit - 2) : SyntaxTree.function? f.toJson = some f := by
  have hparts := Json.depth_record (n := depthLimit - 3) |>.mp hdepth
  have hparams := list?_map fun p (_ : p ∈ f.params) => param?_toJson p
  have hbody : list? (outerStmt? (depthLimit - 4)) (.array (stmtsJson f.body)) = some f.body :=
    outerStmts?_toJson (by decide) h (hparts ("body", _) (by simp))
  simp [SyntaxTree.function?, Function.toJson, orDefault?, typeJson, hparams, hbody,
    location?_toJson]

theorem plain_entry {e : Entry} (h : ∀ bits ∈ stmtsDoubles e.body, Json.ReadsBack bits) :
    e.toJson.Plain Json.Number.Readable := by
  have hbody := plain_stmts e.body h
  rw [Entry.toJson, Json.plain_record]
  simp [hbody, plain_location]

/-- The entry of a module is read back. It has one level more than a function, since it is in no
list. -/
theorem entry?_toJson {e : Entry} (h : ∀ bits ∈ stmtsDoubles e.body, Json.ReadsBack bits)
    (hdepth : e.toJson.depth ≤ depthLimit - 1) : SyntaxTree.entry? e.toJson = some e := by
  have hparts := Json.depth_record (n := depthLimit - 2) |>.mp hdepth
  have hbody : list? (outerStmt? (depthLimit - 3)) (.array (stmtsJson e.body)) = some e.body :=
    outerStmts?_toJson (by decide) h (hparts ("body", _) (by simp))
  simp [SyntaxTree.entry?, Entry.toJson, orDefault?, hbody, location?_toJson]

end SyntaxTree

namespace Module

theorem plain_toJson {m : Module} (h : ∀ bits ∈ m.doubles, Json.ReadsBack bits) :
    m.toJson.Plain Json.Number.Readable := by
  simp only [doubles, List.forall_mem_append, List.forall_mem_flatMap] at h
  obtain ⟨hfunctions, hentry⟩ := h
  have hlist := plain_array_map fun f hf => plain_function (hfunctions f hf)
  have hoption : (optionJson Entry.toJson m.entry).Plain Json.Number.Readable := by
    cases hm : m.entry with
    | none => trivial
    | some e =>
      rw [hm] at hentry
      exact plain_entry hentry
  rw [toJson, Json.plain_record]
  simp [plain_text, hlist, hoption]

/-- A module is read back from the value that is written for it. -/
theorem ofJson?_toJson {m : Module} (h : ∀ bits ∈ m.doubles, Json.ReadsBack bits)
    (hdepth : m.toJson.depth ≤ depthLimit) : Module.ofJson? m.toJson = some m := by
  simp only [doubles, List.forall_mem_append, List.forall_mem_flatMap] at h
  obtain ⟨hfunctions, hentry⟩ := h
  have hparts := Json.depth_record (n := depthLimit - 1) |>.mp hdepth
  have hitems := Json.depth_array (n := depthLimit - 2) |>.mp
    (hparts ("functions", .array (m.functions.map Function.toJson)) (by simp))
  have hlist : list? SyntaxTree.function? (.array (m.functions.map Function.toJson)) = _ :=
    list?_map fun f hf => function?_toJson (hfunctions f hf) (hitems _ (List.mem_map_of_mem hf))
  have hoption : nullable? SyntaxTree.entry? (some (optionJson Entry.toJson m.entry)) =
      some m.entry := by
    apply nullable?_optionJson
    intro e he
    have hroom := hparts ("entry", optionJson Entry.toJson m.entry) (by simp)
    rw [he] at hentry hroom
    exact ⟨rfl, entry?_toJson hentry hroom⟩
  simp [Module.ofJson?, toJson, record?_record, orDefault?, text?_ofText, hlist, hoption]

/-- **The interchange text is faithful.** A module is read back from its text, with every location,
missing part and order it has, if its binary numbers read back and its nesting is within the limit
of the reader. Neither condition can be left out: the reader rounds in steps, so that it does not
get every number right, and it refuses what is nested too deeply. -/
theorem interchange_round_trip (m : Module) (hdoubles : ∀ bits ∈ m.doubles, Json.ReadsBack bits)
    (hdepth : m.toJson.depth ≤ depthLimit) : Module.parse? m.render = some m := by
  have hplain := plain_toJson hdoubles
  have hspelled := Json.Plain.mono (fun n hn => hn.toSpelled) m.toJson hplain
  rw [Module.parse?, Module.render, Json.parse?_render hspelled]
  exact ofJson?_toJson hdoubles hdepth

/-- A module with awkward texts and numbers, whose parts are partly missing. -/
def awkwardModule : Module where
  name := "\x00\t\"\\/\x7f é \u2028 😀"
  functions :=
    [{ name := "", result := none, body := [.ret {} none]
       loc := { source := "a\nb", line := 4294967295 } },
     { name := "f", result := some .int, params := [⟨"x", some .double⟩, ⟨"x", none⟩]
       body := [.ret {} (some (.int {} Int64.minValue))] }]
  entry := some
    { body :=
        [.declare {} "d" (some .double) (some (.double {} 0x3FB999999999999A)),
         .declare {} "e" (some .char) none,
         .loop {}
           [.branch {} "d"
             [.mk (.compare .ge (.double {} 0xFE37E43C8800759C)) [.print {} (.variable {} "d")],
              .mk (.equals (.call {} "f" [.int {} 0, .double {} 1])) []]
             (some [.abort {}])]
           (.shift {} .left (.arith {} .mul (.int {} 7) (.int {} (-7))) (.variable {} "e"))] }

theorem interchange_round_trip_awkward :
    Module.parse? awkwardModule.render = some awkwardModule := by
  have hall : awkwardModule.doubles.all (fun bits => decide (Json.ReadsBack bits)) = true := by
    decide +kernel
  simp only [List.all_eq_true, decide_eq_true_eq] at hall
  exact interchange_round_trip awkwardModule hall (by decide +kernel)

end Module

end TypedStack
