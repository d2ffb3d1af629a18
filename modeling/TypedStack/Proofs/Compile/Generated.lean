import TypedStack.Compile.Lowering
import TypedStack.Proofs.Evaluation.Basic
/-!
# The shape of generated code

Which instructions stand for which tree, as a relation. It leaves out what only generating them
needs: the checks, the source lines, and the order in which names come into scope. Variables are
looked up among all those of the function, since a name once bound is never bound again.

The two numbers in each relation count the labels handed out before and after. The proofs that
generated code is typed and that it does what the tree says go by induction on these relations, and
not on the generator.
-/

set_option autoImplicit false

namespace TypedStack.Compile

open Assembly Evaluation

/-- The variables that code refers to, by name. -/
abbrev Variables := String → Option Variable

/-! ## Pieces of code -/

/-- Converts the top value, if its type has to change. -/
def castCode (source target : ValueType) : List Instr :=
  if source = target then [] else [.op (.cast source target)]

/-- Turns the ordering signal on top into a truth value, with two labels from `n` on. There is no
instruction that compares and leaves a truth value, so the code jumps over one of two constants. -/
def signalCode (relation : Relation) (n : Nat) : List Instr :=
  [.op (.jumpIf relation ⟨n⟩), .op (.const (.value (.bool false))), .op (.jump ⟨n + 1⟩),
    .mark ⟨n⟩, .op (.const (.value (.bool true))), .mark ⟨n + 1⟩]

/-- Writes a message and ends the program, with an exit code of minus one. -/
def fatalCode (message : String) : List Instr :=
  [.op (.printError message), .op (.const (.value (.int (-1)))), .op .exit]

/-- Drops a value that may be there. -/
def dropCode : ResultType → List Instr
  | some t => [.op (.pop t)]
  | none => []

/-- Gives back the zero value, or nothing if the function has no result. -/
def zeroCode : ResultType → List Instr
  | some t => [.op (.const (.value (.zero t))), .op (.ret t)]
  | none => [.op .retVoid]

/-! ## Trees

The constructors follow those of the trees. Where a statement has code of two forms, there are two
constructors: a declaration with and without an initial value, a return from a function with and
without a result, a branch with and without a last body. -/

section

variable (fs : FunctionTable) (vars : Variables)

mutual

/-- The code of an expression, and the type of the value that it leaves. Operands are converted
right after they are evaluated, so at most one conversion stands behind each. -/
inductive ExprCode : Expr → Nat → List Instr → ResultType → Nat → Prop
  | call {loc : Location} {name : String} {args : List Expr} {f : FunctionSig} {sig : Signature}
      {lo hi : Nat} {code : List Instr} (hf : fs[name]? = some f) (hsig : f.signature = .ok sig)
      (hargs : ArgsCode args sig.params lo code hi) :
      ExprCode (.call loc name args) lo (code ++ [.op (.call ⟨name, sig⟩)]) sig.result hi
  | arith {loc : Location} {op : ArithOp} {lhs rhs : Expr} {a b t : ValueType} {lo mid hi : Nat}
      {left right : List Instr} (hl : ExprCode lhs lo left (some a) mid)
      (hr : ExprCode rhs mid right (some b) hi) (ht : t = commonType a b) (hb : t ≠ .bool) :
      ExprCode (.arith loc op lhs rhs) lo
        ((left ++ castCode a t) ++ (right ++ castCode b t) ++ [.op (.arith op t)]) (some t) hi
  | shift {loc : Location} {kind : ShiftKind} {lhs rhs : Expr} {a b : ValueType} {lo mid hi : Nat}
      {left right : List Instr} (hl : ExprCode lhs lo left (some a) mid)
      (hr : ExprCode rhs mid right (some b) hi) :
      ExprCode (.shift loc kind lhs rhs) lo
        ((left ++ castCode a .int) ++ (right ++ castCode b .int) ++ [.op (.shift kind)] ++
          castCode .int a) (some a) hi
  | comparison {loc : Location} {op : Comparison} {lhs rhs : Expr} {a b t : ValueType}
      {lo mid hi : Nat} {left right : List Instr} (hl : ExprCode lhs lo left (some a) mid)
      (hr : ExprCode rhs mid right (some b) hi) (ht : t = commonType a b) :
      ExprCode (.comparison loc op lhs rhs) lo
        ((left ++ castCode a t) ++ (right ++ castCode b t) ++ [.op (.compare t)] ++
          signalCode op.relation hi) (some .bool) (hi + 2)
  | variable {loc : Location} {name : String} {v : Variable} {lo : Nat} (hv : vars name = some v) :
      ExprCode (.variable loc name) lo [.op (.load v.type v.slot)] (some v.type) lo
  | int {loc : Location} {n : Int64} {lo : Nat} :
      ExprCode (.int loc n) lo [.op (.const (.value (.int n)))] (some .int) lo
  | double {loc : Location} {bits : UInt64} {lo : Nat} :
      ExprCode (.double loc bits) lo [.op (.const (.value (.double bits)))] (some .double) lo

/-- The code of the arguments of a call, each converted to the type of its parameter. -/
inductive ArgsCode : List Expr → List ValueType → Nat → List Instr → Nat → Prop
  | nil {lo : Nat} : ArgsCode [] [] lo [] lo
  | cons {e : Expr} {rest : List Expr} {a t : ValueType} {types : List ValueType}
      {lo mid hi : Nat} {code tail : List Instr} (he : ExprCode e lo code (some a) mid)
      (hrest : ArgsCode rest types mid tail hi) :
      ArgsCode (e :: rest) (t :: types) lo ((code ++ castCode a t) ++ tail) hi

end

/-- The tests of a branch on a variable, with the labels of the arms. The variable is loaded anew
for each test, since its value is used up by the comparison. -/
inductive TestsCode (target : Variable) :
    List BranchArm → Nat → List Instr → List Label → Nat → Prop
  | nil {lo : Nat} : TestsCode target [] lo [] [] lo
  | cons {test : BranchTest} {body : List Stmt} {rest : List BranchArm} {a t : ValueType}
      {lo mid hi : Nat} {code tail : List Instr} {labels : List Label}
      (he : ExprCode fs vars test.value lo code (some a) mid) (ht : t = commonType target.type a)
      (hrest : TestsCode target rest (mid + 1) tail labels hi) :
      TestsCode target (.mk test body :: rest) lo
        ((.op (.load target.type target.slot) :: castCode target.type t) ++
          (code ++ castCode a t) ++ [.op (.compare t), .op (.jumpIf test.relation ⟨mid⟩)] ++ tail)
        (⟨mid⟩ :: labels) hi

variable (result : ResultType)

mutual

/-- The code of a statement in a function with a given result. It leaves nothing on the stack. -/
inductive StmtCode : Stmt → Nat → List Instr → Nat → Prop
  | read {loc : Location} {target : String} {v : Variable} {lo : Nat}
      (hv : vars target = some v) :
      StmtCode (.read loc target) lo [.op (.read v.type), .op (.store v.type v.slot)] lo
  | print {loc : Location} {value : Expr} {t : ValueType} {lo hi : Nat} {code : List Instr}
      (he : ExprCode fs vars value lo code (some t) hi) :
      StmtCode (.print loc value) lo (code ++ [.op (.print t)]) hi
  | declare {loc : Location} {name : String} {e : Expr} {a : ValueType} {v : Variable}
      {lo hi : Nat} {code : List Instr} (he : ExprCode fs vars e lo code (some a) hi)
      (hv : vars name = some v) :
      StmtCode (.declare loc name (some v.type) (some e)) lo
        ((code ++ castCode a v.type) ++ [.op (.store v.type v.slot)]) hi
  | declareZero {loc : Location} {name : String} {v : Variable} {lo : Nat}
      (hv : vars name = some v) :
      StmtCode (.declare loc name (some v.type) none) lo
        [.op (.const (.value (.zero v.type))), .op (.store v.type v.slot)] lo
  | assign {loc : Location} {name : String} {value : Expr} {a : ValueType} {v : Variable}
      {lo hi : Nat} {code : List Instr} (hv : vars name = some v)
      (he : ExprCode fs vars value lo code (some a) hi) :
      StmtCode (.assign loc name value) lo
        ((code ++ castCode a v.type) ++ [.op (.store v.type v.slot)]) hi
  | ret {loc : Location} {e : Expr} {a t : ValueType} {lo hi : Nat} {code : List Instr}
      (hr : result = some t) (he : ExprCode fs vars e lo code (some a) hi) :
      StmtCode (.ret loc (some e)) lo ((code ++ castCode a t) ++ [.op (.ret t)]) hi
  | retEffect {loc : Location} {e : Expr} {t : ResultType} {lo hi : Nat} {code : List Instr}
      (hr : result = none) (he : ExprCode fs vars e lo code t hi) :
      StmtCode (.ret loc (some e)) lo (code ++ dropCode t ++ [.op .retVoid]) hi
  | retZero {loc : Location} {lo : Nat} : StmtCode (.ret loc none) lo (zeroCode result) lo
  | call {loc : Location} {name : String} {args : List Expr} {t : ResultType} {lo hi : Nat}
      {code : List Instr} (he : ExprCode fs vars (.call loc name args) lo code t hi) :
      StmtCode (.call loc name args) lo (code ++ dropCode t) hi
  | assert {loc : Location} {condition : Expr} {a : ValueType} {lo hi : Nat} {code : List Instr}
      (he : ExprCode fs vars condition (lo + 1) code (some a) hi) :
      StmtCode (.assert loc condition) lo
        ((code ++ castCode a .bool) ++ [.op (.jumpIfTrue ⟨lo⟩)] ++
          fatalCode s!"Assertion failed at {loc.text}" ++ [.mark ⟨lo⟩]) hi
  | abort {loc : Location} {lo : Nat} :
      StmtCode (.abort loc) lo (fatalCode s!"Program aborted at {loc.text}") lo
  | loop {loc : Location} {body : List Stmt} {condition : Expr} {a : ValueType}
      {lo mid hi : Nat} {inner code : List Instr} (hbody : StmtsCode body (lo + 1) inner mid)
      (he : ExprCode fs vars condition mid code (some a) hi) :
      StmtCode (.loop loc body condition) lo
        (.mark ⟨lo⟩ :: inner ++ (code ++ castCode a .bool) ++ [.op (.jumpIfTrue ⟨lo⟩)]) hi
  | branch {loc : Location} {target : String} {arms : List BranchArm} {v : Variable}
      {lo mid hi : Nat} {tests inner : List Instr} {labels : List Label}
      (hv : vars target = some v) (htests : TestsCode fs vars v arms (lo + 1) tests labels mid)
      (hbodies : BodiesCode ⟨lo⟩ arms labels mid inner hi) :
      StmtCode (.branch loc target arms none) lo
        (tests ++ .op (.jump ⟨lo⟩) :: inner ++ [.mark ⟨lo⟩]) hi
  | branchElse {loc : Location} {target : String} {arms : List BranchArm} {otherwise : List Stmt}
      {v : Variable} {lo mid last hi : Nat} {tests inner code : List Instr} {labels : List Label}
      (hv : vars target = some v) (htests : TestsCode fs vars v arms (lo + 1) tests labels mid)
      (hbodies : BodiesCode ⟨lo⟩ arms labels (mid + 1) inner last)
      (helse : StmtsCode otherwise last code hi) :
      StmtCode (.branch loc target arms (some otherwise)) lo
        (tests ++ .op (.jump ⟨mid⟩) :: inner ++ .mark ⟨mid⟩ :: code ++ [.mark ⟨lo⟩]) hi

/-- Statements one after the other. -/
inductive StmtsCode : List Stmt → Nat → List Instr → Nat → Prop
  | nil {lo : Nat} : StmtsCode [] lo [] lo
  | cons {first : Stmt} {rest : List Stmt} {lo mid hi : Nat} {code tail : List Instr}
      (hfirst : StmtCode first lo code mid) (hrest : StmtsCode rest mid tail hi) :
      StmtsCode (first :: rest) lo (code ++ tail) hi

/-- The bodies of the arms of a branch, each under its label and followed by a jump to the end of
the branch, so that no body runs into the next. -/
inductive BodiesCode : Label → List BranchArm → List Label → Nat → List Instr → Nat → Prop
  | nil {done : Label} {lo : Nat} : BodiesCode done [] [] lo [] lo
  | cons {done label : Label} {test : BranchTest} {body : List Stmt} {rest : List BranchArm}
      {labels : List Label} {lo mid hi : Nat} {code tail : List Instr}
      (hbody : StmtsCode body lo code mid) (hrest : BodiesCode done rest labels mid tail hi) :
      BodiesCode done (.mk test body :: rest) (label :: labels) lo
        (.mark label :: code ++ .op (.jump done) :: tail) hi

end

end

theorem promote_some (a b : ValueType) : promote (some a) (some b) = some (commonType a b) := by
  cases a <;> cases b <;> rfl

section

variable {fs : FunctionTable} {vars vars' : Variables}

mutual

/-- More variables in reach change no code. So an expression may be described with the variables in
scope where it stands, or with all those of the function. -/
theorem ExprCode.mono
    (hvars : ∀ {name : String} {v : Variable}, vars name = some v → vars' name = some v) :
    ∀ {e : Expr} {lo hi : Nat} {code : List Instr} {t : ResultType},
      ExprCode fs vars e lo code t hi → ExprCode fs vars' e lo code t hi
  | _, _, _, _, _, .call hf hsig hargs => .call hf hsig (hargs.mono hvars)
  | _, _, _, _, _, .arith hl hr ht hb => .arith (hl.mono hvars) (hr.mono hvars) ht hb
  | _, _, _, _, _, .shift hl hr => .shift (hl.mono hvars) (hr.mono hvars)
  | _, _, _, _, _, .comparison hl hr ht => .comparison (hl.mono hvars) (hr.mono hvars) ht
  | _, _, _, _, _, .variable hv => .variable (hvars hv)
  | _, _, _, _, _, .int => .int
  | _, _, _, _, _, .double => .double

theorem ArgsCode.mono
    (hvars : ∀ {name : String} {v : Variable}, vars name = some v → vars' name = some v) :
    ∀ {args : List Expr} {types : List ValueType} {lo hi : Nat} {code : List Instr},
      ArgsCode fs vars args types lo code hi → ArgsCode fs vars' args types lo code hi
  | _, _, _, _, _, .nil => .nil
  | _, _, _, _, _, .cons he hrest => .cons (he.mono hvars) (hrest.mono hvars)

end

end

end TypedStack.Compile
