import TypedStack.Proofs.Simulation.Expressions
/-!
# Statements

The code of a statement follows its execution. Control comes to the end of the code, with slots that
hold the new environment, or it is back in the caller with what the statement gives back. A loop is
followed round by round: every round takes a step at least, so a loop that is cut off after some
rounds has taken as many steps.

The block that is executed always has a caller. That of the program's body is the starting block, so
a return never ends the run by itself.
-/

set_option autoImplicit false

namespace TypedStack.Simulation

open Assembly Compile Evaluation

/-- Where control is after statements: at an offset, or back in the caller. At an offset the stack
is empty and the slots hold the environment. -/
def After (x : Site) (vars : Variables) (result : ResultType) (j : Nat) (caller : Activation)
    (waiting : List Activation) : Control → Console → Layered → Prop
  | .next env, c, l => c.opened = true ∧
      ∃ slots, Holds vars env slots ∧ l = x.state c j slots [] (caller :: waiting)
  | .returned v, c, l => Returned caller waiting result v c l

/-- From an offset on, the machine follows what is done in an environment up to another offset. The
statement is made of offsets and not of code, since what a branch does first and next does not stand
side by side. -/
def ExecutesFrom (x : Site) (vars : Variables) (result : ResultType) (n : Nat)
    (run : Env → Eval Control) (i j : Nat) : Prop :=
  ∀ (env : Env) (slots : List Value) (c : Console) (caller : Activation)
    (waiting : List Activation), Holds vars env slots → c.opened = true →
    Follows x.blocks n (x.state c i slots [] (caller :: waiting)) (run env c)
      (After x vars result j caller waiting)

/-- Code does what is done in an environment, wherever it stands. A statement is executed in a block
with a caller, and with nothing on the stack. -/
def Executes (x : Site) (vars : Variables) (result : ResultType) (n : Nat)
    (run : Env → Eval Control) (code : List Instr) : Prop :=
  ∀ i j, x.Spans i code j → ExecutesFrom x vars result n run i j

section

variable {x : Site} {fs : FunctionTable} {vars : Variables} {calls : Calls} {result : ResultType}
  {n : Nat}

/-! ## Pieces

What several statements end with: control at the next offset, a value stored, a jump. -/

theorem after_next {env : Env} {slots : List Value} {c : Console} {j : Nat} {caller : Activation}
    {waiting : List Activation} (hholds : Holds vars env slots) (hc : c.opened = true) :
    Follows x.blocks n (x.state c j slots [] (caller :: waiting)) (.value (.next env) c)
      (After x vars result j caller waiting) :=
  .value ⟨hc, slots, hholds, rfl⟩

theorem store_follows (hx : x.Scoped vars) {env : Env} {slots : List Value} {c : Console}
    {i j : Nat} {caller : Activation} {waiting : List Activation} {name : String} {v : Variable}
    {val : Value} (hholds : Holds vars env slots) (hc : c.opened = true)
    (hv : vars name = some v) (hval : val.type = v.type)
    (h : x.Spans i [.op (.store v.type v.slot)] j) :
    Follows x.blocks n (x.state c i slots [val] (caller :: waiting))
      (.value (.next (env.set name val)) c) (After x vars result j caller waiting) := by
  obtain ⟨old, -, hold, -⟩ := hholds name v hv
  exact .step (h.store c slots [] (caller :: waiting) (hx.declared hv) hold hval)
    (after_next (hholds.set hx hv hval) hc)

/-- Control goes on elsewhere, unless it is back in the caller. -/
theorem After.jump {i j d : Nat} {l : Label} {caller : Activation} {waiting : List Activation}
    (hd : MarkedAt x.instrs l d) (h : x.Spans i [.op (.jump l)] j) {control : Control}
    {c : Console} {state : Layered}
    (hafter : After x vars result i caller waiting control c state) :
    Follows x.blocks n state (.value control c) (After x vars result d caller waiting) := by
  cases control with
  | returned v => exact .value hafter
  | next env =>
    obtain ⟨hc, slots, hholds, rfl⟩ := hafter
    exact .step (h.jump c slots [] (caller :: waiting) hd) (after_next hholds hc)

theorem Executes.nil : Executes x vars result n (fun env => pure (.next env)) [] := by
  intro i j hspans env slots c caller waiting hholds hc
  obtain rfl : i = j := hspans
  exact after_next hholds hc

/-- What comes next is not reached if control is back in the caller. Otherwise it begins where the
first part has ended, in the environment that this has left. -/
theorem ExecutesFrom.append {run run' : Env → Eval Control} {i j k : Nat}
    (h : ExecutesFrom x vars result n run i j) (h' : ExecutesFrom x vars result n run' j k) :
    ExecutesFrom x vars result n (fun env => do
      match ← run env with
      | .next env => run' env
      | .returned v => pure (.returned v)) i k := by
  intro env slots c caller waiting hholds hc
  refine (h env slots c caller waiting hholds hc).andThen ?_
  intro control c' l hafter
  cases control with
  | returned v => exact .value hafter
  | next env' =>
    obtain ⟨hc', slots', hholds', rfl⟩ := hafter
    exact h' env' slots' c' caller waiting hholds' hc'

/-! ## Loops

The body is run at least once, and then as long as the condition holds. The tree allows a loop some
number of rounds and is unfinished when they are used up. -/

/-- A loop is followed for as many rounds as are allowed. By induction on the rounds: if the
condition holds, control is at the mark in front of the body again, after a step or more. -/
theorem repeatWhile_follows {run : Env → Eval Control} {condition : Expr} {code : List Instr}
    {a : ValueType} {i mid test j : Nat} {start : Label} (hstart : MarkedAt x.instrs start i)
    (hbody : ExecutesFrom x vars result n run i mid)
    (hcondition : ∀ {env : Env} {slots : List Value}, Holds vars env slots →
      Evaluates x n calls env slots condition code (some a))
    (hcode : x.Spans mid (code ++ castCode a .bool) test)
    (hjump : x.Spans test [.op (.jumpIfTrue start)] j) :
    ∀ rounds : Nat, rounds ≤ n → ExecutesFrom x vars result rounds
      (repeatWhile run (fun env => condition.operand calls env) rounds) i j
  | 0, _ => fun _ _ _ _ _ _ _ => ⟨0, _, Nat.le_refl 0, .refl⟩
  | rounds + 1, hrounds => by
    have hagain := repeatWhile_follows hstart hbody hcondition hcode hjump rounds
      (Nat.le_of_succ_le hrounds)
    intro env slots c caller waiting hholds hc
    refine ((hbody env slots c caller waiting hholds hc).mono hrounds).andThen ?_
    intro control c₁ l hafter
    cases control with
    | returned v => exact .value hafter
    | next env₁ =>
      obtain ⟨hc₁, slots₁, hholds₁, rfl⟩ := hafter
      have hvalue := (hcondition hholds₁).operand hcode [] (caller :: waiting) hc₁
      refine (hvalue.mono hrounds).andThen ?_
      rintro v c₂ _ ⟨-, hc₂, rfl⟩
      have hnext := hjump.jumpIfTrue c₂ slots₁ [] (caller :: waiting) hstart (v.type_cast .bool)
      rw [Value.toBool_cast] at hnext
      cases hv : v.toBool with
      | true =>
        rw [hv] at hnext
        -- the jump back is the step that pays for the round
        rw [if_pos rfl, Nat.add_comm]
        exact (hagain env₁ slots₁ c₂ caller waiting hholds₁ hc₂).behind (.single hnext)
      | false =>
        rw [hv] at hnext
        exact .step hnext (after_next hholds₁ hc₂)

/-! ## Branches

The code has all tests first and the bodies behind them, while the tree goes from one arm to the
next. They meet in `Ready`, which says of each label that the body of its arm can be run from there.
-/

theorem test_eval (calls : Calls) (test : BranchTest) :
    ∃ op : Comparison, test.relation = op.relation ∧
      ∀ (env : Env) (target : Value) (c : Console), test.eval calls env target c =
        (test.value.operand calls env c).andThen fun v c => compares op target v c := by
  cases test with
  | compare op value => exact ⟨op, rfl, fun _ _ _ => rfl⟩
  | equals value => exact ⟨.eq, rfl, fun _ _ _ => rfl⟩

/-- The body of an arm is under its label, and leads to the end of the branch. -/
def Ready (x : Site) (vars : Variables) (result : ResultType) (n : Nat) (calls : Calls) (d : Nat)
    (arm : BranchArm) (label : Label) : Prop :=
  ∃ k, MarkedAt x.instrs label k ∧ ExecutesFrom x vars result n
    (fun env => Stmt.execAll ⟨calls, n, result⟩ env arm.body) k d

/-- The tests of a branch lead to the arm that is taken, or behind the last of them. Tests come one
after another and change no variable, so the environment at the arm is the one that the branch began
with. -/
theorem tests_follow (hx : x.Scoped vars) (hserves : Serves x.blocks x.directory fs n calls)
    {target : Variable} {name : String} (htarget : vars name = some target) {d : Nat}
    {otherwise : Env → Eval Control} {arms : List BranchArm} {lo hi : Nat} {code : List Instr}
    {labels : List Label} (htests : TestsCode fs vars target arms lo code labels hi) :
    ∀ {i j : Nat}, x.Spans i code j → List.Forall₂ (Ready x vars result n calls d) arms labels →
      ExecutesFrom x vars result n otherwise j d →
      ∀ (env : Env) (slots : List Value) (c : Console) (caller : Activation)
        (waiting : List Activation) (val : Value), Holds vars env slots → c.opened = true →
        env name = some val →
        Follows x.blocks n (x.state c i slots [] (caller :: waiting))
          (BranchArm.execFirst ⟨calls, n, result⟩ env val (otherwise env) arms c)
          (After x vars result d caller waiting) := by
  induction htests with
  | nil =>
    intro i j hspans _ hother env slots c caller waiting val hholds hc _
    obtain rfl : i = j := hspans
    rw [BranchArm.execFirst]
    exact hother env slots c caller waiting hholds hc
  | @cons test body rest a t lo mid hi code tail labels he ht _ ih =>
    intro i j hspans harms hother env slots c caller waiting val hholds hc henv
    obtain ⟨⟨k, hlabel, hbody⟩, hrest⟩ := List.forall₂_cons.mp harms
    obtain ⟨next, hfirst, htail⟩ := Site.spans_append.mp hspans
    obtain ⟨both, hvalues, hsignal⟩ := Site.spans_append.mp hfirst
    obtain ⟨loaded, htargetAt, hvalue⟩ := Site.spans_append.mp hvalues
    obtain ⟨cast, hload, hcast⟩ := Site.spans_cons.mp htargetAt
    obtain ⟨jump, hcompare, hjump⟩ := Site.spans_cons.mp hsignal
    -- the target is loaded again for every test, and finds the value that the branch began with
    obtain ⟨_, henv', hslot, htype⟩ := hholds name target htarget
    obtain rfl := Option.some.inj (henv.symm.trans henv')
    obtain ⟨op, hrelation, htest⟩ := test_eval calls test
    rw [BranchArm.execFirst]
    show Follows _ _ _ ((test.eval calls env val c).andThen fun b c =>
      (if b then Stmt.execAll ⟨calls, n, result⟩ env body
        else BranchArm.execFirst ⟨calls, n, result⟩ env val (otherwise env) rest) c) _
    rw [htest, Result.andThen_assoc]
    refine .step (hload.load c slots [] (caller :: waiting) (hx.declared htarget) hslot htype) ?_
    obtain ⟨steps, hsteps⟩ := hcast.castCode c slots [] (caller :: waiting) htype
    refine .after hsteps (((evaluates hx hserves hholds he).operand hvalue [val.cast t]
      (caller :: waiting) hc).andThen ?_)
    rintro w c' _ ⟨rfl, hc', rfl⟩
    rw [← htype] at ht
    obtain ⟨o, ho, hcompares⟩ := compares_eq op ht c'
    rw [hcompares]
    refine .step (hcompare.compare c' slots [] (caller :: waiting) (val.type_cast t)
      (w.type_cast t) ho) ?_
    have hnext := hjump.jumpIf c' slots [] (caller :: waiting) hlabel (orderingSignal o)
    rw [hrelation, Comparison.relation_holds] at hnext
    refine .step hnext ?_
    cases hholds' : holds op o with
    | true => exact hbody env slots c' caller waiting hholds hc'
    | false => exact ih htail hrest hother env slots c' caller waiting val hholds hc' henv

/-! ## The code of statements

One lemma for each statement that takes more than an expression and a step. What a loop and a branch
contain is followed already: this is a hypothesis, and is discharged by recursion on the code. -/

/-- The tree and the machine read the same input, and fail on the same. -/
theorem read_executes (hx : x.Scoped vars) (loc : Location) {name : String} {v : Variable}
    (hv : vars name = some v) :
    Executes x vars result n (fun env => (Stmt.read loc name).exec ⟨calls, n, result⟩ env)
      [.op (.read v.type), .op (.store v.type v.slot)] := by
  intro i j hspans env slots c caller waiting hholds hc
  obtain ⟨k, hread, hstore⟩ := Site.spans_cons.mp hspans
  obtain ⟨old, henv, -, htype⟩ := hholds _ _ hv
  simp only [Stmt.exec, henv]
  show Follows _ _ _ ((Eval.read old.type c).andThen fun w c =>
    .value (Control.next (env.set name w)) c) _
  rw [htype]
  rcases Input.read_typed v.type c.input with ⟨w, input, hr, hw⟩ | ⟨e, input, hr, -⟩
  · rw [show Eval.read v.type c = .value w { c with input } by simp [Eval.read, hr]]
    exact .step (hread.read c slots [] (caller :: waiting) hc hr)
      (store_follows hx hholds hc hv hw hstore)
  · rw [show Eval.read v.type c = .ended (.error e) c by simp [Eval.read, hr]]
    exact .ended (.failed (hread.read_error c slots [] (caller :: waiting) hc hr))

/-- A value that is found, converted to the type of a variable and stored is what the variable is
set to. Declarations and assignments have the same code. -/
theorem store_executes (hx : x.Scoped vars) {name : String} {v : Variable} {e : Expr}
    {a : ValueType} {code : List Instr} {env : Env} {slots : List Value} {c : Console} {i j : Nat}
    (hv : vars name = some v) (he : Evaluates x n calls env slots e code (some a))
    (h : x.Spans i ((code ++ castCode a v.type) ++ [.op (.store v.type v.slot)]) j)
    (hholds : Holds vars env slots) (hc : c.opened = true) (caller : Activation)
    (waiting : List Activation) :
    Follows x.blocks n (x.state c i slots [] (caller :: waiting))
      ((e.operand calls env c).andThen fun w c =>
        .value (Control.next (env.set name (w.cast v.type))) c)
      (After x vars result j caller waiting) := by
  obtain ⟨k, hvalue, hstore⟩ := Site.spans_append.mp h
  refine (he.operand hvalue [] (caller :: waiting) hc).andThen ?_
  rintro w c' _ ⟨-, hc', rfl⟩
  exact store_follows hx hholds hc' hv (w.type_cast _) hstore

/-- An assertion jumps over the code of its failure if the condition holds. -/
theorem assert_executes (loc : Location) {condition : Expr} {a : ValueType} {code : List Instr}
    {ok : Label} (he : ∀ {env : Env} {slots : List Value}, Holds vars env slots →
      Evaluates x n calls env slots condition code (some a)) :
    Executes x vars result n (fun env => (Stmt.assert loc condition).exec ⟨calls, n, result⟩ env)
      ((code ++ castCode a .bool) ++ [.op (.jumpIfTrue ok)] ++
        fatalCode s!"Assertion failed at {loc.text}" ++ [.mark ok]) := by
  intro i j hspans env slots c caller waiting hholds hc
  obtain ⟨_, hspans', hmark⟩ := Site.spans_append.mp hspans
  obtain ⟨hok, rfl⟩ := Site.spans_mark.mp hmark
  obtain ⟨fatal, htest, hfatal⟩ := Site.spans_append.mp hspans'
  obtain ⟨k, hvalue, hjump⟩ := Site.spans_append.mp htest
  simp only [Stmt.exec]
  refine ((he hholds).operand hvalue [] (caller :: waiting) hc).andThen ?_
  rintro v c' _ ⟨-, hc', rfl⟩
  have hnext := hjump.jumpIfTrue c' slots [] (caller :: waiting) hok (v.type_cast .bool)
  rw [Value.toBool_cast] at hnext
  refine .step hnext ?_
  cases hv : v.toBool with
  | true => exact after_next hholds hc'
  | false => exact hfatal.fatalCode c' slots [] (caller :: waiting)

/-- A loop begins at its mark, to which the condition behind the body jumps back. -/
theorem loop_executes (loc : Location) {body : List Stmt} {condition : Expr} {a : ValueType}
    {inner code : List Instr} {start : Label}
    (hbody : Executes x vars result n
      (fun env => Stmt.execAll ⟨calls, n, result⟩ env body) inner)
    (he : ∀ {env : Env} {slots : List Value}, Holds vars env slots →
      Evaluates x n calls env slots condition code (some a)) :
    Executes x vars result n
      (fun env => (Stmt.loop loc body condition).exec ⟨calls, n, result⟩ env)
      (.mark start :: inner ++ (code ++ castCode a .bool) ++ [.op (.jumpIfTrue start)]) := by
  intro i j hspans env slots c caller waiting hholds hc
  obtain ⟨test, hspans', hjump⟩ := Site.spans_append.mp hspans
  obtain ⟨mid, hloop, hcondition⟩ := Site.spans_append.mp hspans'
  obtain ⟨_, hmark, hinner⟩ := Site.spans_cons.mp hloop
  obtain ⟨hstart, rfl⟩ := Site.spans_mark.mp hmark
  simp only [Stmt.exec]
  exact repeatWhile_follows hstart (hbody i mid hinner) he hcondition hjump n (Nat.le_refl n)
    env slots c caller waiting hholds hc

/-- The bodies of arms can be run from their labels, wherever the code of the bodies stands and
whatever the offset behind the branch is. -/
def ArmsReady (x : Site) (vars : Variables) (result : ResultType) (n : Nat) (calls : Calls)
    (done : Label) (arms : List BranchArm) (labels : List Label) (code : List Instr) : Prop :=
  ∀ {d i j : Nat}, MarkedAt x.instrs done d → x.Spans i code j →
    List.Forall₂ (Ready x vars result n calls d) arms labels

/-- If no test of a branch without a last body holds, control goes to its end. -/
theorem branch_executes (hx : x.Scoped vars) (hserves : Serves x.blocks x.directory fs n calls)
    (loc : Location) {target : String} {arms : List BranchArm} {v : Variable} {lo hi : Nat}
    {tests inner : List Instr} {labels : List Label} {done : Label} (hv : vars target = some v)
    (htests : TestsCode fs vars v arms lo tests labels hi)
    (harms : ArmsReady x vars result n calls done arms labels inner) :
    Executes x vars result n
      (fun env => (Stmt.branch loc target arms none).exec ⟨calls, n, result⟩ env)
      (tests ++ .op (.jump done) :: inner ++ [.mark done]) := by
  intro i j hspans env slots c caller waiting hholds hc
  obtain ⟨_, hspans', hmark⟩ := Site.spans_append.mp hspans
  obtain ⟨hdone, rfl⟩ := Site.spans_mark.mp hmark
  obtain ⟨k, htestsAt, hrest⟩ := Site.spans_append.mp hspans'
  obtain ⟨first, hjump, hinner⟩ := Site.spans_cons.mp hrest
  obtain ⟨val, henv, -, -⟩ := hholds _ _ hv
  simp only [Stmt.exec, henv]
  have hother : ExecutesFrom x vars result n (fun env => pure (.next env)) k _ :=
    fun env slots c caller waiting hholds hc =>
      After.jump hdone hjump ⟨hc, slots, hholds, rfl⟩
  exact tests_follow hx hserves hv htests htestsAt (harms hdone hinner) hother env slots c caller
    waiting val hholds hc henv

/-- If no test holds, control goes to the last body, and from its end on. -/
theorem branchElse_executes (hx : x.Scoped vars)
    (hserves : Serves x.blocks x.directory fs n calls) (loc : Location) {target : String}
    {arms : List BranchArm} {otherwise : List Stmt} {v : Variable} {lo hi : Nat}
    {tests inner code : List Instr} {labels : List Label} {done default : Label}
    (hv : vars target = some v) (htests : TestsCode fs vars v arms lo tests labels hi)
    (harms : ArmsReady x vars result n calls done arms labels inner)
    (hotherwise : Executes x vars result n
      (fun env => Stmt.execAll ⟨calls, n, result⟩ env otherwise) code) :
    Executes x vars result n
      (fun env => (Stmt.branch loc target arms (some otherwise)).exec ⟨calls, n, result⟩ env)
      (tests ++ .op (.jump default) :: inner ++ .mark default :: code ++ [.mark done]) := by
  intro i j hspans env slots c caller waiting hholds hc
  obtain ⟨_, hspans', hmark⟩ := Site.spans_append.mp hspans
  obtain ⟨hdone, rfl⟩ := Site.spans_mark.mp hmark
  obtain ⟨last, hspans', hlast⟩ := Site.spans_append.mp hspans'
  obtain ⟨_, hmark, hlast⟩ := Site.spans_cons.mp hlast
  obtain ⟨hdefault, rfl⟩ := Site.spans_mark.mp hmark
  obtain ⟨k, htestsAt, hrest⟩ := Site.spans_append.mp hspans'
  obtain ⟨first, hjump, hinner⟩ := Site.spans_cons.mp hrest
  obtain ⟨val, henv, -, -⟩ := hholds _ _ hv
  simp only [Stmt.exec, henv]
  have hother : ExecutesFrom x vars result n
      (fun env => Stmt.execAll ⟨calls, n, result⟩ env otherwise) k _ :=
    fun env slots c caller waiting hholds hc =>
      .step (hjump.jump c slots [] (caller :: waiting) hdefault)
        (hotherwise _ _ hlast env slots c caller waiting hholds hc)
  exact tests_follow hx hserves hv htests htestsAt (harms hdone hinner) hother env slots c caller
    waiting val hholds hc henv

mutual

-- By recursion on the derivation that the code is generated for the tree.
theorem executes (hx : x.Scoped vars) (hserves : Serves x.blocks x.directory fs n calls) :
    ∀ {st : Stmt} {lo hi : Nat} {code : List Instr}, StmtCode fs vars result st lo code hi →
      Executes x vars result n (fun env => st.exec ⟨calls, n, result⟩ env) code
  | .read loc _, _, _, _, .read hv => read_executes hx loc hv
  | _, _, _, _, .print he => by
    intro i j hspans env slots c caller waiting hholds hc
    obtain ⟨k, hvalue, hprint⟩ := Site.spans_append.mp hspans
    simp only [Stmt.exec]
    refine ((evaluates hx hserves hholds he).value hvalue [] (caller :: waiting) hc).andThen ?_
    rintro v c' _ ⟨hv, hc', rfl⟩
    exact .step (hprint.print c' slots [] (caller :: waiting) hv) (after_next hholds hc')
  | _, _, _, _, .declare he hv => by
    intro i j hspans env slots c caller waiting hholds hc
    simp only [Stmt.exec]
    exact store_executes hx hv (evaluates hx hserves hholds he) hspans hholds hc caller waiting
  | _, _, _, _, .declareZero hv => by
    intro i j hspans env slots c caller waiting hholds hc
    obtain ⟨k, hconst, hstore⟩ := Site.spans_cons.mp hspans
    simp only [Stmt.exec]
    exact .step (hconst.const c slots [] (caller :: waiting))
      (store_follows hx hholds hc hv (Value.type_zero _) hstore)
  | _, _, _, _, .assign hv he => by
    intro i j hspans env slots c caller waiting hholds hc
    obtain ⟨old, henv, -, htype⟩ := hholds _ _ hv
    simp only [Stmt.exec, henv]
    show Follows _ _ _ ((Expr.operand calls env _ c).andThen fun w c =>
      .value (Control.next (env.set _ (w.cast old.type))) c) _
    rw [htype]
    exact store_executes hx hv (evaluates hx hserves hholds he) hspans hholds hc caller waiting
  | _, _, _, _, .ret (t := t) hr he => by
    intro i j hspans env slots c caller waiting hholds hc
    obtain ⟨k, hvalue, hret⟩ := Site.spans_append.mp hspans
    subst hr
    simp only [Stmt.exec, bind_operand]
    refine ((evaluates hx hserves hholds he).operand hvalue [] (caller :: waiting) hc).andThen ?_
    rintro v c' _ ⟨-, hc', rfl⟩
    exact .step (hret.ret c' slots [] waiting (v.type_cast t))
      (.value ⟨congrArg some (v.type_cast t), hc', rfl⟩)
  | _, _, _, _, .retEffect hr he => by
    intro i j hspans env slots c caller waiting hholds hc
    obtain ⟨k, hvalue, hret⟩ := Site.spans_append.mp hspans
    obtain ⟨drop, hvalue, hdrop⟩ := Site.spans_append.mp hvalue
    subst hr
    simp only [Stmt.exec]
    refine (evaluates hx hserves hholds he i drop hvalue c [] (caller :: waiting) hc).andThen ?_
    rintro v c' _ ⟨ht, hc', rfl⟩
    obtain ⟨steps, hsteps⟩ := hdrop.dropCode c' slots [] (caller :: waiting) ht
    exact .after hsteps (.step (hret.retVoid c' slots [] waiting) (.value ⟨rfl, hc', rfl⟩))
  | _, _, _, _, .retZero => by
    intro i j hspans env slots c caller waiting hholds hc
    obtain ⟨steps, hsteps⟩ := hspans.zeroCode c slots [] waiting
    simp only [Stmt.exec]
    exact .after hsteps (.value ⟨Value.map_type_zero result, hc, rfl⟩)
  | _, _, _, _, .call he => by
    intro i j hspans env slots c caller waiting hholds hc
    obtain ⟨k, hcall, hdrop⟩ := Site.spans_append.mp hspans
    simp only [Stmt.exec]
    refine (evaluates hx hserves hholds he i k hcall c [] (caller :: waiting) hc).andThen ?_
    rintro v c' _ ⟨ht, hc', rfl⟩
    obtain ⟨steps, hsteps⟩ := hdrop.dropCode c' slots [] (caller :: waiting) ht
    exact .after hsteps (after_next hholds hc')
  | .assert loc _, _, _, _, .assert he => assert_executes loc fun h => evaluates hx hserves h he
  | _, _, _, _, .abort => by
    intro i j hspans env slots c caller waiting hholds hc
    simp only [Stmt.exec]
    exact hspans.fatalCode c slots [] (caller :: waiting)
  | .loop loc _ _, _, _, _, .loop hbody he =>
    loop_executes loc (executesAll hx hserves hbody) fun h => evaluates hx hserves h he
  | .branch loc _ _ none, _, _, _, .branch hv htests hbodies =>
    branch_executes hx hserves loc hv htests (bodies_ready hx hserves hbodies)
  | .branch loc _ _ (some _), _, _, _, .branchElse hv htests hbodies helse =>
    branchElse_executes hx hserves loc hv htests (bodies_ready hx hserves hbodies)
      (executesAll hx hserves helse)

theorem executesAll (hx : x.Scoped vars) (hserves : Serves x.blocks x.directory fs n calls) :
    ∀ {body : List Stmt} {lo hi : Nat} {code : List Instr},
      StmtsCode fs vars result body lo code hi →
      Executes x vars result n (fun env => Stmt.execAll ⟨calls, n, result⟩ env body) code
  | _, _, _, _, .nil => by
    simp only [Stmt.execAll]
    exact .nil
  | _, _, _, _, .cons hfirst hrest => by
    intro i j hspans
    obtain ⟨k, hfirstAt, hrestAt⟩ := Site.spans_append.mp hspans
    simp only [Stmt.execAll]
    exact (executes hx hserves hfirst i k hfirstAt).append
      (executesAll hx hserves hrest k j hrestAt)

/-- The bodies of a branch stand under their labels, each followed by a jump to the end. -/
theorem bodies_ready (hx : x.Scoped vars) (hserves : Serves x.blocks x.directory fs n calls) :
    ∀ {done : Label} {arms : List BranchArm} {labels : List Label} {lo hi : Nat}
      {code : List Instr}, BodiesCode fs vars result done arms labels lo code hi →
      ArmsReady x vars result n calls done arms labels code
  | _, _, _, _, _, _, .nil, _, _, _, _, _ => .nil
  | _, _, _, _, _, _, .cons hbody hrest, d, i, j, hd, hspans => by
    obtain ⟨k, hfirst, htail⟩ := Site.spans_append.mp hspans
    obtain ⟨_, hmark, hcode⟩ := Site.spans_cons.mp hfirst
    obtain ⟨hlabel, rfl⟩ := Site.spans_mark.mp hmark
    obtain ⟨next, hjump, htail⟩ := Site.spans_cons.mp htail
    refine .cons ⟨i, hlabel, ?_⟩ (bodies_ready hx hserves hrest hd htail)
    intro env slots c caller waiting hholds hc
    exact (executesAll hx hserves hbody i k hcode env slots c caller waiting hholds hc).extend
      fun _ _ _ hafter => After.jump hd hjump hafter

end

end

end TypedStack.Simulation
