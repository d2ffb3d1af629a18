import Mathlib.Data.List.Perm.Basic
import TypedStack.Proofs.Compile.Acceptance
import TypedStack.Proofs.Compile.Messages
import TypedStack.Proofs.Machine.Reordered
import TypedStack.Proofs.Simulation.Programs
/-!
# The order of functions

A function is lowered with nothing known of the others but their names and signatures, so modules
that list the same functions in different orders are lowered to the same blocks in different orders.
These compile alike and run alike (`function_order_irrelevant`).

The bytes differ: blocks are numbered in their order, and a call names its block by number. That
runs agree all the same is a property of the machine, since the numbers in a call lead to blocks of
the same name in both (`Reordered`).
-/

set_option autoImplicit false

namespace TypedStack.Compile

open Assembly

/-! ## Lowering sees the function table through its lookups

A table is a hash map, so tables with the same entries need not be equal. The generator only looks
functions up by name, and so gives equal results on tables with the same answers. Each lemma is an
equation between computations, not between their results. -/

/-- Two tables give the same answers. -/
def SameLookups (t t' : FunctionTable) : Prop := ∀ name : String, t[name]? = t'[name]?

section

variable {t t' : FunctionTable}

theorem lookup_congr (h : SameLookups t t') (name : String) (loc : Location) :
    t.lookup name loc = t'.lookup name loc := by
  unfold FunctionTable.lookup
  rw [h name]

theorem typeOf_congr (h : SameLookups t t') (scope : Scope) (e : Expr) :
    typeOf t scope e = typeOf t' scope e := by
  induction e using typeOf.induct with
  | case1 loc name args => simp only [typeOf, lookup_congr h]
  | case2 loc op lhs rhs ihl ihr => simp only [typeOf, ihl, ihr]
  | case3 loc kind lhs rhs ih => simp only [typeOf, ih]
  | _ => rfl

end

namespace Lowering

variable {t t' : FunctionTable} {result : ResultType}

theorem typeOf_same (h : SameLookups t t') (e : Expr) :
    typeOf ⟨t, result⟩ e = typeOf ⟨t', result⟩ e := by
  simp only [typeOf, typeOf_congr h]

mutual

/-- By recursion on the tree. The type of an expression is looked up in the table too
(`typeOf_same`). -/
theorem expr_same (h : SameLookups t t') : ∀ e : Expr, expr ⟨t, result⟩ e = expr ⟨t', result⟩ e
  | .call loc name args => by simp only [expr, lookup_congr h, arguments_same h args]
  | .arith loc op lhs rhs => by simp only [expr, typeOf_same h, expr_same h lhs, expr_same h rhs]
  | .shift loc kind lhs rhs => by simp only [expr, typeOf_same h, expr_same h lhs, expr_same h rhs]
  | .comparison loc op lhs rhs => by
    simp only [expr, typeOf_same h, expr_same h lhs, expr_same h rhs]
  | .variable loc name => by simp only [expr]
  | .int loc n => by simp only [expr]
  | .double loc bits => by simp only [expr]

theorem arguments_same (h : SameLookups t t') :
    ∀ (args : List Expr) (types : List ResultType),
      arguments ⟨t, result⟩ args types = arguments ⟨t', result⟩ args types
  | [], _ => by simp only [arguments]
  | _ :: _, [] => by simp only [arguments]
  | e :: rest, type :: types => by
    simp only [arguments, expr_same h e, arguments_same h rest types]

end

theorem exprAs_same (h : SameLookups t t') (e : Expr) (type : ResultType) :
    exprAs ⟨t, result⟩ e type = exprAs ⟨t', result⟩ e type := by
  simp only [exprAs, expr_same h]

theorem giveBack_same (h : SameLookups t t') (loc : Location) (value : Option Expr) :
    giveBack ⟨t, result⟩ loc value = giveBack ⟨t', result⟩ loc value := by
  cases value with
  | none => simp only [giveBack]
  | some e => simp only [giveBack, exprAs_same h, expr_same h]

theorem declare_same (h : SameLookups t t') (loc : Location) (name : String) (type : ResultType)
    (init : Option Expr) :
    declare ⟨t, result⟩ loc name type init = declare ⟨t', result⟩ loc name type init := by
  cases init with
  | none => simp only [declare]
  | some e => simp only [declare, exprAs_same h]

theorem tests_same (h : SameLookups t t') (target : Variable) (loc : Location)
    (arms : List BranchArm) :
    tests ⟨t, result⟩ target loc arms = tests ⟨t', result⟩ target loc arms := by
  induction arms with
  | nil => rfl
  | cons arm rest ih =>
    cases arm with
    | mk test body => simp only [tests, typeOf_same h, exprAs_same h, ih]

mutual

theorem stmt_same (h : SameLookups t t') : ∀ st : Stmt, stmt ⟨t, result⟩ st = stmt ⟨t', result⟩ st
  | .read loc target => by simp only [stmt]
  | .print loc value => by simp only [stmt, typeOf_same h, expr_same h]
  | .declare loc name type init => by simp only [stmt, declare_same h]
  | .assign loc name value => by simp only [stmt, exprAs_same h]
  | .ret loc value => by simp only [stmt, giveBack_same h]
  | .call loc name args => by simp only [stmt, expr_same h]
  | .assert loc condition => by simp only [stmt, exprAs_same h]
  | .abort loc => by simp only [stmt]
  | .loop loc body condition => by simp only [stmt, stmts_same h body, exprAs_same h]
  | .branch loc target arms none => by simp only [stmt, tests_same h, bodies_same h arms]
  | .branch loc target arms (some otherwise) => by
    simp only [stmt, tests_same h, bodies_same h arms, stmts_same h otherwise]

theorem stmts_same (h : SameLookups t t') :
    ∀ body : List Stmt, stmts ⟨t, result⟩ body = stmts ⟨t', result⟩ body
  | [] => by simp only [stmts]
  | first :: rest => by simp only [stmts, stmt_same h first, stmts_same h rest]

theorem bodies_same (h : SameLookups t t') :
    ∀ (arms : List BranchArm) (done : Label) (labels : List Label),
      bodies ⟨t, result⟩ done arms labels = bodies ⟨t', result⟩ done arms labels
  | [], _, _ => by simp only [bodies]
  | .mk _ _ :: _, _, [] => by simp only [bodies]
  | .mk test body :: rest, done, label :: labels => by
    simp only [bodies, stmts_same h body, bodies_same h rest]

end

end Lowering

/-- A function is lowered to the same block, or refused with the same error. -/
theorem lowerBody_same {t t' : FunctionTable} (h : SameLookups t t') (name : String)
    (params : List Param) (result : ResultType) (body : List Stmt) (loc : Location) :
    lowerBody t name params result body loc = lowerBody t' name params result body loc := by
  simp only [lowerBody, Lowering.stmts_same h, Lowering.giveBack_same h]

/-! ## Modules that list their functions in different orders

Names are distinct in any order, so both modules have a table, and these have the same entries.
Which errors a module is refused with may depend on the order, but not whether it is refused. -/

/-- Tables of the same functions give the same answers, since a name determines its function. -/
theorem Lists.sameLookups {t t' : FunctionTable} {functions functions' : List Function}
    (h : Lists t functions) (h' : Lists t' functions') (hperm : functions.Perm functions') :
    SameLookups t t' := by
  intro name
  apply Option.ext
  intro sig
  rw [h.entry, h'.entry]
  simp only [hperm.mem_iff]

/-- The blocks of the functions are the same, in the other order. Those of the entry come last in
both. -/
theorem lowerModule_reordered {options : Options} {m : Module} {functions : List Function}
    (hperm : m.functions.Perm functions) {p : Program} (hp : lowerModule options m = .ok p) :
    ∃ p', lowerModule options { m with functions } = .ok p' ∧ p'.name = p.name ∧
      p.blocks.toList.Perm p'.blocks.toList := by
  simp only [lowerModule, except_throw_bind] at hp ⊢
  by_cases hname : Text.isIdentifier (options.artifactName.getD m.name) = true
  case neg => simp [hname, except_throw_ok] at hp
  simp only [hname, if_true, except_bind_ok, except_pure_ok, except_mapM_ok] at hp ⊢
  obtain ⟨t, ht, blocks, hblocks, entry, hentry, rfl⟩ := hp
  -- the functions have the names that the others have
  obtain ⟨hdistinct, hfree⟩ := functionTable_iff.mp ⟨t, ht⟩
  obtain ⟨t', ht'⟩ : ∃ t', functionTable functions = .ok t' :=
    functionTable_iff.mpr ⟨(hperm.map _).nodup_iff.mp hdistinct,
      fun f hf => hfree f (hperm.mem_iff.mpr hf)⟩
  have hsame : SameLookups t t' :=
    (functionTable_ok ht).sameLookups (functionTable_ok ht') hperm
  obtain ⟨blocks', hblocks', hpermuted⟩ := List.perm_comp_forall₂ hperm.symm hblocks
  refine ⟨_, ⟨t', ht', blocks', ?_, entry, ?_, rfl⟩, rfl, ?_⟩
  · refine hblocks'.imp fun f b hb => ?_
    rw [lowerFunction, ← lowerBody_same hsame]
    exact hb
  · rw [← hentry]
    cases m.entry with
    | none => rfl
    | some e => simp only [entryBlocks, lowerEntry, lowerBody_same hsame]
  · exact hpermuted.symm.append_right entry

/-- The counts of a program that have to fit their fields do not depend on the order of its
blocks. -/
theorem fits_reordered {p p' : Program} (hname : p'.name = p.name)
    (hperm : p.blocks.toList.Perm p'.blocks.toList) (h : p.Fits) : p'.Fits := by
  obtain ⟨hlength, hsize, hblocks⟩ := h
  refine ⟨hname ▸ hlength, ?_, ?_⟩
  · rw [← Array.length_toList, ← hperm.length_eq]
    exact hsize
  · intro b hb
    exact hblocks b (Array.mem_toList_iff.mp (hperm.mem_iff.mpr (Array.mem_toList_iff.mpr hb)))

/-- A module compiles if its program fits, and then to the bytes of what it is encoded to. -/
theorem compile_iff {options : Options} {m : Module} {bytes : List UInt8} :
    compile options m = .ok bytes ↔
      ∃ p a, lowerModule options m = .ok p ∧ p.encode = .ok a ∧ a.toBytes = bytes := by
  rw [compile_ok]
  constructor
  · rintro ⟨p, hp, hbytes⟩
    obtain ⟨fs, functions, entry, hcode⟩ := lowerModule_code hp
    rw [hcode.typed.assemble_eq, except_map_ok] at hbytes
    obtain ⟨a, ha, hbytes⟩ := hbytes
    exact ⟨p, a, hp, ha, hbytes⟩
  · rintro ⟨p, a, hp, ha, hbytes⟩
    obtain ⟨fs, functions, entry, hcode⟩ := lowerModule_code hp
    refine ⟨p, hp, ?_⟩
    rw [hcode.typed.assemble_eq, except_map_ok]
    exact ⟨a, ha, hbytes⟩

/-- What compiles in one order of its functions compiles in any other, and to a program with the
same blocks. -/
theorem compile_reordered {options : Options} {m : Module} {functions : List Function}
    (hperm : m.functions.Perm functions) {p : Program} {a : Artifact}
    (hp : lowerModule options m = .ok p) (ha : p.encode = .ok a) :
    ∃ p' a', lowerModule options { m with functions } = .ok p' ∧ p'.encode = .ok a' ∧
      Reordered p p' a a' := by
  obtain ⟨p', hp', hname, hblocks⟩ := lowerModule_reordered hperm hp
  obtain ⟨fs, blocks, entry, hcode⟩ := lowerModule_code hp
  obtain ⟨fs', blocks', entry', hcode'⟩ := lowerModule_code hp'
  obtain ⟨a', ha'⟩ := hcode'.typed.encode_of_fits (fits_reordered hname hblocks (p.encode_fits ha))
  exact ⟨p', a', hp', ha', hcode.typed, hblocks, ha, ha'⟩

/-- **The order of functions does not matter.** A module and one that lists the same functions in
another order compile or fail to compile together, and if they compile, what they are encoded to
comes to the same ends with the same lines written, on every input and under all limits. -/
theorem function_order_irrelevant (options : Options) (m : Module) (functions : List Function)
    (hperm : functions.Perm m.functions) :
    ((∃ bytes, compile options m = .ok bytes) ↔
      ∃ bytes, compile options { m with functions } = .ok bytes) ∧
    ∀ bytes bytes', compile options m = .ok bytes →
      compile options { m with functions } = .ok bytes' →
      ∃ p a p' a', lowerModule options m = .ok p ∧ p.encode = .ok a ∧ a.toBytes = bytes ∧
        lowerModule options { m with functions } = .ok p' ∧ p'.encode = .ok a' ∧
        a'.toBytes = bytes' ∧
        ∀ limits input r c, (Machine.mk a limits).Yields input r c ↔
          (Machine.mk a' limits).Yields input r c := by
  constructor
  · simp only [compile_iff]
    constructor
    · rintro ⟨bytes, p, a, hp, ha, -⟩
      obtain ⟨p', a', hp', ha', -⟩ := compile_reordered hperm.symm hp ha
      exact ⟨_, p', a', hp', ha', rfl⟩
    · rintro ⟨bytes, p', a', hp', ha', -⟩
      obtain ⟨p, a, hp, ha, -⟩ := compile_reordered hperm hp' ha'
      exact ⟨_, p, a, hp, ha, rfl⟩
  · intro bytes bytes' hbytes hbytes'
    obtain ⟨p, a, hp, ha, hbytes⟩ := compile_iff.mp hbytes
    obtain ⟨p', a', hp', ha', hbytes'⟩ := compile_iff.mp hbytes'
    refine ⟨p, a, p', a', hp, ha, hbytes, hp', ha', hbytes', ?_⟩
    obtain ⟨p₁, a₁, hp₁, ha₁, hreordered⟩ := compile_reordered hperm.symm hp ha
    -- lowering and encoding give one result each
    rw [hp'] at hp₁
    cases hp₁
    rw [ha'] at ha₁
    cases ha₁
    intro limits input r c
    exact exists_congr fun fuel => runProgram_ended_twins limits hreordered fuel _ r c

/-- Whether a number is even, by way of a function for odd numbers that calls back. -/
def evenFunction : Function where
  name := "even"
  result := some .bool
  params := [⟨"n", some .int⟩]
  body := [
    .branch {} "n" [.mk (.equals (.int {} 0)) [.ret {} (some (.int {} 1))]] none,
    .ret {} (some (.call {} "odd" [.arith {} .sub (.variable {} "n") (.int {} 1)]))]

/-- Whether a number is odd. Each of the two functions calls the other, so that in any order one of
them calls a function further down. -/
def oddFunction : Function where
  name := "odd"
  result := some .bool
  params := [⟨"n", some .int⟩]
  body := [
    .branch {} "n" [.mk (.equals (.int {} 0)) [.ret {} (some (.int {} 0))]] none,
    .ret {} (some (.call {} "even" [.arith {} .sub (.variable {} "n") (.int {} 1)]))]

def parityModule : Module where
  functions := [evenFunction, oddFunction]
  entry := some {
    body := [.print {} (.call {} "odd" [.int {} 2]), .ret {} (some (.call {} "even" [.int {} 2]))] }

theorem parityModule_lowers : ∃ p, lowerModule {} parityModule = .ok p ∧ p.Fits := by
  rw [lowerModule_run (by decide +kernel)]
  simp [parityModule, evenFunction, oddFunction, functionTable_eq, isReservedName_eq, lowerBody_run,
    Scope.ofParams_eq]
  decide

/-- With the functions the other way round the module compiles too, and what it is encoded to ends
as the first one does. -/
theorem function_order_irrelevant_parity :
    [oddFunction, evenFunction].Perm parityModule.functions ∧
    ∃ p a, lowerModule {} { parityModule with functions := [oddFunction, evenFunction] } = .ok p ∧
      p.encode = .ok a ∧
      ∃ size, ∀ limits, Machine.Allows limits size →
        (Machine.mk a limits).Yields [] (.ok (.exited 1))
        { Console.ready [] with outputLines := ["false"] } := by
  have hperm : [oddFunction, evenFunction].Perm parityModule.functions := .swap _ _ _
  obtain ⟨p, hp, hfits⟩ := parityModule_lowers
  obtain ⟨fs, functions, entry, hcode⟩ := lowerModule_code hp
  obtain ⟨a, ha⟩ := hcode.typed.encode_of_fits hfits
  have hcompile : compile {} parityModule = .ok a.toBytes := compile_iff.mpr ⟨p, a, hp, ha, rfl⟩
  obtain ⟨hboth, hruns⟩ := function_order_irrelevant {} parityModule _ hperm
  obtain ⟨bytes, hbytes⟩ := hboth.mp ⟨_, hcompile⟩
  obtain ⟨p₁, a₁, p', a', hp₁, ha₁, -, hp', ha', -, hyields⟩ := hruns _ _ hcompile hbytes
  rw [hp] at hp₁
  cases hp₁
  rw [ha] at ha₁
  cases ha₁
  obtain ⟨start, init, hlaunches⟩ := Simulation.launches hcode ha rfl
  have hends : parityModule.Ends [] (.ok 1)
      { Console.ready [] with outputLines := ["false"] } := ⟨9, by rfl⟩
  obtain ⟨size, hsize⟩ := hlaunches.yields_within hends
  exact ⟨hperm, p', a', hp', ha', size,
    fun limits hlimits => (hyields _ _ _ _).mp (hsize limits hlimits)⟩

end TypedStack.Compile
