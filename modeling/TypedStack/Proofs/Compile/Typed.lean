import Mathlib.Data.List.Nodup
import TypedStack.Compile.Module
import TypedStack.Proofs.Assembly.Capacity
import TypedStack.Proofs.Compile.Functions
/-!
# Generated code is typed

The code of an expression pushes a value of its type and the code of a statement leaves the operand
stack empty. `Runs` says so of a piece of code that may jump to marks which other pieces provide;
pieces are put together with `Runs.append`, and `Runs.close` closes code over the marks in it. That
labels are distinct is a matter of the numbers handed out, `Exhausts`.

For a function this comes down to `FunctionCode.typed`: its block is typed in the sense of
`Assembly.Block.Typed`, which is what a verifier of the assembled code needs. Nothing is said here
of the calls in a block but that they have the signatures of the function table (`CallsKnown`); that
the functions called are there is a property of the whole program.
-/

set_option autoImplicit false

namespace TypedStack.Compile

open Assembly Evaluation

/-! ## Pieces

Each of the pieces of code that the generator writes in more than one place, under the same name as
in the relation between trees and code. -/

section

variable {slots : Array ValueType} {result : ResultType}

/-- Code that leads from one shape to another. It needs some marks to be there, and gives some. The
annotation is chosen once, before the code around the piece is known, which is what lets pieces be
typed one at a time and put together later. -/
def Runs (slots : Array ValueType) (result : ResultType) (needs : List Annotated)
    (code : List Instr) (s t : Shape) (gives : List Annotated) : Prop :=
  ∃ ann : List Annotated, ann.map Prod.snd = code ∧ (∀ x ∈ gives, x ∈ ann) ∧
    ∀ all : List Annotated, (∀ x ∈ ann, x ∈ all) → (∀ x ∈ needs, x ∈ all) →
      Flows slots result all s ann t

namespace Runs

variable {needs gives gives' : List Annotated} {code code' : List Instr} {s t u : Shape}

theorem nil : Runs slots result needs [] s s [] := ⟨[], rfl, by simp, fun _ _ _ => .nil⟩

/-- Two pieces may need the same marks, and give the marks of both. The first ends in the shape that
the second begins with. -/
theorem append (h : Runs slots result needs code s t gives)
    (h' : Runs slots result needs code' t u gives') :
    Runs slots result needs (code ++ code') s u (gives ++ gives') := by
  obtain ⟨ann, hcode, hgives, hflows⟩ := h
  obtain ⟨ann', hcode', hgives', hflows'⟩ := h'
  refine ⟨ann ++ ann', by rw [List.map_append, hcode, hcode'], ?_, ?_⟩
  · intro x hx
    rcases List.mem_append.mp hx with hx | hx
    · exact List.mem_append_left _ (hgives x hx)
    · exact List.mem_append_right _ (hgives' x hx)
  · intro all hall hneeds
    exact (hflows all (fun x hx => hall x (List.mem_append_left _ hx)) hneeds).append
      (hflows' all (fun x hx => hall x (List.mem_append_right _ hx)) hneeds)

/-- Code needs no marks from elsewhere that it gives itself. A loop closes over the mark at its head
in this way, and a branch over the marks of its arms and that behind it. -/
theorem close (gives : List Annotated) (h : Runs slots result gives code s t gives) :
    Runs slots result needs code s t [] := by
  obtain ⟨ann, hcode, hgives, hflows⟩ := h
  exact ⟨ann, hcode, by simp, fun all hall _ => hflows all hall fun x hx => hall x (hgives x hx)⟩

theorem mark (l : Label) : Runs slots result needs [.mark l] s s [(s, .mark l)] :=
  ⟨[(s, .mark l)], rfl, fun _ hx => hx, fun _ _ _ => .mark .nil⟩

theorem op {o : SymbolicOp}
    (h : OpTyped slots result (fun l s => (s, .mark l) ∈ needs) o s (some t)) :
    Runs slots result needs [.op o] s t [] := by
  refine ⟨[(s, .op o)], rfl, by simp, fun all _ hneeds => .next ?_ .nil⟩
  exact h.mono fun l u hl => hneeds _ hl

/-- What comes behind an instruction that never goes on may have any shape. Nothing reaches it but
by a mark, and there the shape is that of the mark. -/
theorem stop {o : SymbolicOp}
    (h : OpTyped slots result (fun l s => (s, .mark l) ∈ needs) o s none) :
    Runs slots result needs [.op o] s t [] := by
  refine ⟨[(s, .op o)], rfl, by simp, fun all _ hneeds => .stop ?_ .nil⟩
  exact h.mono fun l u hl => hneeds _ hl

end Runs

/-! ## Pieces -/

theorem castCode_runs {needs : List Annotated} (a t : ValueType) (s : Shape) :
    Runs slots result needs (castCode a t) (a :: s) (t :: s) [] := by
  unfold castCode
  split
  · next h => exact h ▸ .nil
  · exact .op .cast

/-- An ordering signal becomes a truth value. The two labels are marked in the code itself, one with
the stack before the truth value and one with the stack after it. -/
theorem signalCode_runs {needs : List Annotated} (relation : Relation) (n : Nat) (s : Shape) :
    Runs slots result needs (signalCode relation n) (.int :: s) (.bool :: s) [] := by
  have hyes : Runs slots result [(s, .mark ⟨n⟩), (.bool :: s, .mark ⟨n + 1⟩)]
      [.op (.jumpIf relation ⟨n⟩)] (.int :: s) s [] := .op (.jumpIf (by simp))
  have hdone : Runs slots result [(s, .mark ⟨n⟩), (.bool :: s, .mark ⟨n + 1⟩)]
      [.op (.jump ⟨n + 1⟩)] (.bool :: s) s [] := .stop (.jump (by simp))
  have hpush : ∀ b : Bool, Runs slots result [(s, .mark ⟨n⟩), (.bool :: s, .mark ⟨n + 1⟩)]
      [.op (.const (.value (.bool b)))] s (.bool :: s) [] := fun b => .op .const
  exact .close _ (((((hyes.append (hpush false)).append hdone).append (.mark ⟨n⟩)).append
    (hpush true)).append (.mark ⟨n + 1⟩))

/-- The code of a fatal error ends with an exit, so the shape behind it is free. In an assertion it
is followed by the mark that the test jumps over it to. -/
theorem fatalCode_runs {needs : List Annotated} (message : String) (s t : Shape) :
    Runs slots result needs (fatalCode message) s t [] :=
  ((Runs.op .printError).append (.op .const)).append (.stop .exit)

theorem dropCode_runs {needs : List Annotated} (t : ResultType) (s : Shape) :
    Runs slots result needs (dropCode t) (t.toList ++ s) s [] := by
  cases t with
  | none => exact .nil
  | some t => exact .op .pop

/-- To give back the zero value needs nothing on the stack, and it never goes on. -/
theorem zeroCode_runs {needs : List Annotated} (s t : Shape) :
    Runs slots result needs (zeroCode result) s t [] := by
  cases hr : result with
  | none => exact .stop (.retVoid rfl)
  | some r =>
    have hconst : Runs slots (some r) needs [.op (.const (.value (.zero r)))] s
        ((Value.zero r).type :: s) [] := .op .const
    rw [Value.type_zero] at hconst
    exact hconst.append (.stop (.ret rfl))

/-! ## Expressions

Whatever lies on the stack below, the code of an expression leaves it there. This is what makes it
possible to evaluate one operand while the other is waiting. -/

variable {fs : FunctionTable} {vars : Variables}

/-- The slots of the variables in reach have their types. It is the only thing that loads and stores
depend on. -/
def SlotsFit (slots : Array ValueType) (vars : Variables) : Prop :=
  ∀ {name : String} {v : Variable}, vars name = some v → slots[v.slot.toNat]? = some v.type

theorem isNumeric_of_ne {t : ValueType} (h : t ≠ .bool) : t.isNumeric = true := by
  cases t <;> first | rfl | exact absurd rfl h

mutual

/-- The code of an expression pushes one value of its type, or nothing if it is a call without a
result. -/
theorem ExprCode.runs (hslots : SlotsFit slots vars) {needs : List Annotated} :
    ∀ {e : Expr} {lo hi : Nat} {code : List Instr} {t : ResultType},
      ExprCode fs vars e lo code t hi →
        ∀ s : Shape, Runs slots result needs code s (t.toList ++ s) []
  | _, _, _, _, _, .call hf hsig hargs, s => (hargs.runs hslots s).append (.op .call)
  | _, _, _, _, _, .arith hl hr ht hb, s => by
    exact ((((hl.runs hslots s).append (castCode_runs _ _ s)).append
      ((hr.runs hslots _).append (castCode_runs _ _ _))).append (.op (.arith (isNumeric_of_ne hb))))
  | _, _, _, _, _, .shift hl hr, s =>
    ((((hl.runs hslots s).append (castCode_runs _ _ s)).append
      ((hr.runs hslots _).append (castCode_runs _ _ _))).append (.op .shift)).append
        (castCode_runs _ _ s)
  | _, _, _, _, _, .comparison hl hr ht, s =>
    ((((hl.runs hslots s).append (castCode_runs _ _ s)).append
      ((hr.runs hslots _).append (castCode_runs _ _ _))).append (.op .compare)).append
        (signalCode_runs _ _ s)
  | _, _, _, _, _, .variable hv, s => .op (.load (hslots hv))
  | _, _, _, _, _, .int, s => .op .const
  | _, _, _, _, _, .double, s => .op .const

/-- Arguments end up in reverse order: the last one is on top. -/
theorem ArgsCode.runs (hslots : SlotsFit slots vars) {needs : List Annotated} :
    ∀ {args : List Expr} {types : List ValueType} {lo hi : Nat} {code : List Instr},
      ArgsCode fs vars args types lo code hi →
        ∀ s : Shape, Runs slots result needs code s (types.reverse ++ s) []
  | _, _, _, _, _, .nil, s => .nil
  | _, _, _, _, _, .cons (t := t) he hrest, s => by
    rw [List.reverse_cons, List.append_assoc _ [t] s]
    exact ((he.runs hslots s).append (castCode_runs _ t s)).append (hrest.runs hslots (t :: s))

end

/-! ## Statements

Between two statements nothing is kept on the stack. A value that a statement leaves, such as that
of a call, is dropped by the statement itself. -/

/-- The mark of a label between statements. -/
def emptyMark (l : Label) : Annotated := ([], .mark l)

/-- The tests of a branch, which fall through if none of them holds. They jump to the arms, and so
need the marks of all arms. -/
theorem TestsCode.runs (hslots : SlotsFit slots vars) {target : Variable}
    (htarget : slots[target.slot.toNat]? = some target.type) {needs : List Annotated}
    {arms : List BranchArm} {lo hi : Nat} {code : List Instr} {labels : List Label}
    (h : TestsCode fs vars target arms lo code labels hi)
    (hneeds : ∀ l ∈ labels, emptyMark l ∈ needs) : Runs slots result needs code [] [] [] := by
  induction h with
  | nil => exact .nil
  | @cons test _ _ a t _ mid _ _ _ _ he _ _ ih =>
    have hload : Runs slots result needs
        (.op (.load target.type target.slot) :: castCode target.type t) [] [t] [] :=
      (Runs.op (.load htarget)).append (castCode_runs target.type t [])
    have htest : Runs slots result needs
        [.op (.compare t), .op (.jumpIf test.relation ⟨mid⟩)] [t, t] [] [] :=
      (Runs.op .compare).append (.op (.jumpIf (hneeds _ List.mem_cons_self)))
    -- the target is on the stack while the value of the test is found
    exact ((hload.append ((he.runs hslots [t]).append (castCode_runs a t [t]))).append
      htest).append (ih fun l hl => hneeds l (List.mem_cons_of_mem _ hl))

theorem jumpIfTrue_runs (l : Label) :
    Runs slots result [emptyMark l] [.op (.jumpIfTrue l)] [.bool] [] [] :=
  .op (.jumpIfTrue List.mem_cons_self)

mutual

-- Between statements the operand stack is empty, so every mark that a statement jumps to is an
-- `emptyMark`, and a statement closes over the marks that it needs.
/-- The code of a statement begins and ends with an empty stack, and needs no mark from outside.
What follows a return or an abort is typed the same, though nothing reaches it. -/
theorem StmtCode.runs (hslots : SlotsFit slots vars) :
    ∀ {st : Stmt} {lo hi : Nat} {code : List Instr}, StmtCode fs vars result st lo code hi →
      ∀ needs : List Annotated, Runs slots result needs code [] [] []
  | _, _, _, _, .read hv, _ => (Runs.op .read).append (.op (.store (hslots hv)))
  | _, _, _, _, .print he, _ => (he.runs hslots []).append (.op .print)
  | _, _, _, _, .declare he hv, _ =>
    ((he.runs hslots []).append (castCode_runs _ _ [])).append (.op (.store (hslots hv)))
  | _, _, _, _, .declareZero hv, _ => by
    refine Runs.append (t := [_]) (.op .const) (.op ?_)
    rw [Value.type_zero]
    -- the zero value of a type has that type
    exact .store (hslots hv)
  | _, _, _, _, .assign hv he, _ =>
    ((he.runs hslots []).append (castCode_runs _ _ [])).append (.op (.store (hslots hv)))
  | _, _, _, _, .ret hr he, _ =>
    ((he.runs hslots []).append (castCode_runs _ _ [])).append (.stop (.ret hr))
  | _, _, _, _, .retEffect hr he, _ =>
    ((he.runs hslots []).append (dropCode_runs _ [])).append (.stop (.retVoid hr))
  | _, _, _, _, .retZero, _ => zeroCode_runs [] []
  | _, _, _, _, .call he, _ => (he.runs hslots []).append (dropCode_runs _ [])
  | _, lo, _, _, .assert he, _ =>
    .close [emptyMark ⟨lo⟩] (((((he.runs hslots []).append (castCode_runs _ _ [])).append
      (jumpIfTrue_runs ⟨lo⟩)).append (fatalCode_runs _ [] [])).append (.mark ⟨lo⟩))
  | _, _, _, _, .abort, _ => fatalCode_runs _ [] []
  | _, lo, _, _, .loop hbody he, _ =>
    .close [emptyMark ⟨lo⟩] ((((Runs.mark ⟨lo⟩).append (hbody.runs hslots _)).append
      ((he.runs hslots []).append (castCode_runs _ _ []))).append (jumpIfTrue_runs ⟨lo⟩))
  | _, lo, _, _, .branch hv htests hbodies, _ =>
    -- the marks of the arms and the one behind the branch
    .close (_ ++ [emptyMark ⟨lo⟩]) (((htests.runs hslots (hslots hv)
      fun _ hl => List.mem_append_left _ (List.mem_map_of_mem hl)).append
      ((Runs.stop (.jump (by simp [emptyMark]))).append (hbodies.runs hslots _ (by simp)))).append
      (.mark ⟨lo⟩))
  | _, lo, _, _, .branchElse hv htests hbodies helse, _ =>
    -- with those of the arms goes the mark of the last body
    .close (_ ++ _ ++ [emptyMark ⟨lo⟩]) ((((htests.runs hslots (hslots hv)
      fun _ hl => List.mem_append_left _ (List.mem_append_left _ (List.mem_map_of_mem hl))).append
      ((Runs.stop (.jump (by simp [emptyMark]))).append (hbodies.runs hslots _ (by simp)))).append
      ((Runs.mark _).append (helse.runs hslots _))).append (.mark ⟨lo⟩))

theorem StmtsCode.runs (hslots : SlotsFit slots vars) :
    ∀ {body : List Stmt} {lo hi : Nat} {code : List Instr},
      StmtsCode fs vars result body lo code hi →
      ∀ needs : List Annotated, Runs slots result needs code [] [] []
  | _, _, _, _, .nil, _ => .nil
  | _, _, _, _, .cons hfirst hrest, needs =>
    (hfirst.runs hslots needs).append (hrest.runs hslots needs)

/-- The bodies of the arms jump to the mark behind the branch and give the marks of the arms, which
the tests need. -/
theorem BodiesCode.runs (hslots : SlotsFit slots vars) :
    ∀ {done : Label} {arms : List BranchArm} {labels : List Label} {lo hi : Nat}
      {code : List Instr}, BodiesCode fs vars result done arms labels lo code hi →
      ∀ needs : List Annotated, emptyMark done ∈ needs →
        Runs slots result needs code [] [] (labels.map emptyMark)
  | _, _, _, _, _, _, .nil, _, _ => .nil
  | _, _, label :: _, _, _, _, .cons hbody hrest, needs, hdone =>
    ((Runs.mark label).append (hbody.runs hslots needs)).append
      ((Runs.stop (.jump hdone)).append (hrest.runs hslots needs hdone))

end

end

/-! ## Labels

Every label that is handed out while code is generated is marked once in it. Labels are numbered in
the order in which they are handed out, but the marks stand in another order: that behind a branch
is handed out first and marked last. So it is their count that is followed, not the list. -/

/-- How often a label occurs among those that are handed out from `lo` up to `hi`. -/
def handedOut (lo hi : Nat) (l : Label) : Nat := if lo ≤ l.index ∧ l.index < hi then 1 else 0

/-- The labels handed out from `lo` up to `hi`, each once, and no others. The numbers of one piece
end where those of the next begin, so that `Exhausts.append` needs no assumption on them. -/
structure Exhausts (ls : List Label) (lo hi : Nat) : Prop where
  le : lo ≤ hi
  count : ∀ l, ls.count l = handedOut lo hi l

/-- Ranges of numbers that follow each other share none. -/
theorem handedOut_add {lo mid hi : Nat} (h : lo ≤ mid) (h' : mid ≤ hi) (l : Label) :
    handedOut lo mid l + handedOut mid hi l = handedOut lo hi l := by
  unfold handedOut
  split <;> split <;> split <;> omega

theorem count_label (n : Nat) (l : Label) : [(⟨n⟩ : Label)].count l = handedOut n (n + 1) l := by
  rw [List.count_singleton]
  unfold handedOut
  by_cases h : n = l.index
  · subst h
    simp
  · have hne : ¬ (⟨n⟩ : Label) = l := fun he => h (by rw [← he])
    have hout : ¬ (n ≤ l.index ∧ l.index < n + 1) := by omega
    rw [if_neg hout]
    simp [hne]

namespace Exhausts

variable {a b : List Label} {lo mid hi : Nat}

theorem nil (n : Nat) : Exhausts [] n n := by
  refine ⟨Nat.le_refl n, fun l => ?_⟩
  have hout : ¬ (n ≤ l.index ∧ l.index < n) := by omega
  simp only [handedOut, if_neg hout, List.count_nil]

theorem single (n : Nat) : Exhausts [⟨n⟩] n (n + 1) := ⟨Nat.le_succ n, count_label n⟩

theorem append (ha : Exhausts a lo mid) (hb : Exhausts b mid hi) : Exhausts (a ++ b) lo hi := by
  refine ⟨Nat.le_trans ha.le hb.le, fun l => ?_⟩
  rw [List.count_append, ha.count, hb.count, handedOut_add ha.le hb.le]

theorem congr (ha : Exhausts a lo hi) (h : ∀ l, a.count l = b.count l) : Exhausts b lo hi :=
  ⟨ha.le, fun l => by rw [← h, ha.count]⟩

theorem nodup (ha : Exhausts a lo hi) : a.Nodup := by
  rw [List.nodup_iff_count_le_one]
  intro l
  rw [ha.count, handedOut]
  split <;> omega

end Exhausts

@[simp] theorem marksOf_castCode (a t : ValueType) : marksOf (castCode a t) = [] := by
  unfold castCode
  split <;> rfl

@[simp] theorem marksOf_dropCode (t : ResultType) : marksOf (dropCode t) = [] := by
  cases t <;> rfl

@[simp] theorem marksOf_fatalCode (message : String) : marksOf (fatalCode message) = [] := rfl

@[simp] theorem marksOf_zeroCode (t : ResultType) : marksOf (zeroCode t) = [] := by
  cases t <;> rfl

theorem signalCode_exhausts (relation : Relation) (n : Nat) :
    Exhausts (marksOf (signalCode relation n)) n (n + 2) :=
  (Exhausts.single n).append (.single (n + 1))

section

variable {fs : FunctionTable} {vars : Variables} {result : ResultType}

mutual

theorem ExprCode.exhausts : ∀ {e : Expr} {lo hi : Nat} {code : List Instr} {t : ResultType},
    ExprCode fs vars e lo code t hi → Exhausts (marksOf code) lo hi
  | _, _, _, _, _, .call _ _ hargs => by simpa using hargs.exhausts
  | _, _, _, _, _, .arith hl hr _ _ => by simpa using hl.exhausts.append hr.exhausts
  | _, _, _, _, _, .shift hl hr => by simpa using hl.exhausts.append hr.exhausts
  | _, _, _, _, _, .comparison hl hr _ => by
    simpa using hl.exhausts.append (hr.exhausts.append (signalCode_exhausts _ _))
  | _, _, _, _, _, .variable _ => .nil _
  | _, _, _, _, _, .int => .nil _
  | _, _, _, _, _, .double => .nil _

theorem ArgsCode.exhausts : ∀ {args : List Expr} {types : List ValueType} {lo hi : Nat}
    {code : List Instr}, ArgsCode fs vars args types lo code hi → Exhausts (marksOf code) lo hi
  | _, _, _, _, _, .nil => .nil _
  | _, _, _, _, _, .cons he hrest => by simpa using he.exhausts.append hrest.exhausts

end

/-- Tests hand out the labels of the arms without marking them. -/
theorem TestsCode.exhausts {target : Variable} {arms : List BranchArm} {lo hi : Nat}
    {code : List Instr} {labels : List Label}
    (h : TestsCode fs vars target arms lo code labels hi) :
    Exhausts (marksOf code ++ labels) lo hi := by
  induction h with
  | nil => exact .nil _
  | @cons _ _ _ _ _ _ mid _ code tail labels he _ _ ih =>
    -- the label of an arm is handed out behind its test, but it is listed behind all of the code
    refine (he.exhausts.append ((Exhausts.single mid).append ih)).congr fun l => ?_
    simp [List.count_cons]
    omega

mutual

/-- Each statement marks just the labels that are handed out while its code is generated. -/
theorem StmtCode.exhausts : ∀ {st : Stmt} {lo hi : Nat} {code : List Instr},
    StmtCode fs vars result st lo code hi → Exhausts (marksOf code) lo hi
  | _, _, _, _, .read _ => .nil _
  | _, _, _, _, .print he => by simpa using he.exhausts
  | _, _, _, _, .declare he _ => by simpa using he.exhausts
  | _, _, _, _, .declareZero _ => .nil _
  | _, _, _, _, .assign _ he => by simpa using he.exhausts
  | _, _, _, _, .ret _ he => by simpa using he.exhausts
  | _, _, _, _, .retEffect _ he => by simpa using he.exhausts
  | _, _, _, _, .retZero => by simpa using Exhausts.nil _
  | _, _, _, _, .call he => by simpa using he.exhausts
  | _, lo, _, _, .assert he => by
    refine ((Exhausts.single lo).append he.exhausts).congr fun l => ?_
    simp [List.count_cons]
  | _, _, _, _, .abort => .nil _
  | _, lo, _, _, .loop hbody he => by
    simpa using (Exhausts.single lo).append (hbody.exhausts.append he.exhausts)
  | _, lo, _, _, .branch _ htests hbodies => by
    obtain ⟨inner, hinner, hcount⟩ := hbodies.exhausts
    refine ((Exhausts.single lo).append (htests.exhausts.append hinner)).congr fun l => ?_
    -- the label of the branch is handed out first and marked last, those of the arms by the tests
    simp [List.count_cons, hcount l]
    omega
  | _, lo, _, _, .branchElse _ htests hbodies helse => by
    obtain ⟨inner, hinner, hcount⟩ := hbodies.exhausts
    refine ((Exhausts.single lo).append (htests.exhausts.append
      ((Exhausts.single _).append (hinner.append helse.exhausts)))).congr fun l => ?_
    simp [List.count_cons, hcount l]
    omega

theorem StmtsCode.exhausts : ∀ {body : List Stmt} {lo hi : Nat} {code : List Instr},
    StmtsCode fs vars result body lo code hi → Exhausts (marksOf code) lo hi
  | _, _, _, _, .nil => .nil _
  | _, _, _, _, .cons hfirst hrest => by simpa using hfirst.exhausts.append hrest.exhausts

/-- Bodies mark the labels of their arms besides those handed out in them. The former come from the
tests (`TestsCode.exhausts`), and the two are put together where both are known. -/
theorem BodiesCode.exhausts : ∀ {done : Label} {arms : List BranchArm} {labels : List Label}
    {lo hi : Nat} {code : List Instr}, BodiesCode fs vars result done arms labels lo code hi →
      ∃ inner, Exhausts inner lo hi ∧ ∀ l, (marksOf code).count l = labels.count l + inner.count l
  | _, _, _, _, _, _, .nil => ⟨[], .nil _, fun _ => rfl⟩
  | _, _, label :: labels, _, _, _, .cons hbody hrest => by
    obtain ⟨inner, hinner, hcount⟩ := hrest.exhausts
    refine ⟨_, hbody.exhausts.append hinner, fun l => ?_⟩
    simp [List.count_cons, hcount l]
    omega

end

/-! ## Calls

What the code of a function calls is found in the table that it was generated with, under the same
name and with the same signature. The code of any other instruction has no part in this. -/

/-- Every call is to a function of the table, with the signature it has there. -/
def CallsKnown (fs : FunctionTable) (code : List Instr) : Prop :=
  ∀ callee : Callee, .op (.call callee) ∈ code →
    ∃ f, fs[callee.name]? = some f ∧ f.signature = .ok callee.signature

namespace CallsKnown

variable {a b : List Instr}

theorem append (ha : CallsKnown fs a) (hb : CallsKnown fs b) : CallsKnown fs (a ++ b) := by
  intro callee h
  rcases List.mem_append.mp h with h | h
  · exact ha callee h
  · exact hb callee h

/-- Code without calls, which most pieces are. -/
theorem of_none (h : ∀ callee : Callee, .op (.call callee) ∉ a) : CallsKnown fs a :=
  fun callee hc => absurd hc (h callee)

theorem mark (l : Label) (h : CallsKnown fs a) : CallsKnown fs (.mark l :: a) :=
  fun callee hc => h callee (by simpa using hc)

theorem jump (l : Label) (h : CallsKnown fs a) : CallsKnown fs (.op (.jump l) :: a) :=
  fun callee hc => h callee (by simpa using hc)

theorem cast (a t : ValueType) : CallsKnown fs (castCode a t) := by
  unfold castCode
  split <;> exact .of_none (by simp)

theorem drop (t : ResultType) : CallsKnown fs (dropCode t) := by
  cases t <;> exact .of_none (by simp [dropCode])

theorem zero (t : ResultType) : CallsKnown fs (zeroCode t) := by
  cases t <;> exact .of_none (by simp [zeroCode])

end CallsKnown

mutual

theorem ExprCode.callsKnown : ∀ {e : Expr} {lo hi : Nat} {code : List Instr} {t : ResultType},
    ExprCode fs vars e lo code t hi → CallsKnown fs code
  | _, _, _, _, _, .call hf hsig hargs => by
    refine hargs.callsKnown.append fun callee h => ?_
    simp only [List.mem_singleton, Instr.op.injEq, Op.call.injEq] at h
    exact h ▸ ⟨_, hf, hsig⟩
  | _, _, _, _, _, .arith hl hr _ _ =>
    ((hl.callsKnown.append (.cast _ _)).append (hr.callsKnown.append (.cast _ _))).append
      (.of_none (by simp))
  | _, _, _, _, _, .shift hl hr =>
    (((hl.callsKnown.append (.cast _ _)).append (hr.callsKnown.append (.cast _ _))).append
      (.of_none (by simp))).append (.cast _ _)
  | _, _, _, _, _, .comparison hl hr _ =>
    (((hl.callsKnown.append (.cast _ _)).append (hr.callsKnown.append (.cast _ _))).append
      (.of_none (by simp))).append (.of_none (by simp [signalCode]))
  | _, _, _, _, _, .variable _ => .of_none (by simp)
  | _, _, _, _, _, .int => .of_none (by simp)
  | _, _, _, _, _, .double => .of_none (by simp)

theorem ArgsCode.callsKnown : ∀ {args : List Expr} {types : List ValueType} {lo hi : Nat}
    {code : List Instr}, ArgsCode fs vars args types lo code hi → CallsKnown fs code
  | _, _, _, _, _, .nil => .of_none (by simp)
  | _, _, _, _, _, .cons he hrest => (he.callsKnown.append (.cast _ _)).append hrest.callsKnown

end

theorem TestsCode.callsKnown {target : Variable} {arms : List BranchArm} {lo hi : Nat}
    {code : List Instr} {labels : List Label}
    (h : TestsCode fs vars target arms lo code labels hi) : CallsKnown fs code := by
  induction h with
  | nil => exact .of_none (by simp)
  | cons he _ _ ih =>
    have hload : CallsKnown fs [.op (.load target.type target.slot)] := .of_none (by simp)
    exact (((hload.append (.cast _ _)).append (he.callsKnown.append (.cast _ _))).append
      (.of_none (by simp))).append ih

mutual

theorem StmtCode.callsKnown : ∀ {st : Stmt} {lo hi : Nat} {code : List Instr},
    StmtCode fs vars result st lo code hi → CallsKnown fs code
  | _, _, _, _, .read _ => .of_none (by simp)
  | _, _, _, _, .print he => he.callsKnown.append (.of_none (by simp))
  | _, _, _, _, .declare he _ => (he.callsKnown.append (.cast _ _)).append (.of_none (by simp))
  | _, _, _, _, .declareZero _ => .of_none (by simp)
  | _, _, _, _, .assign _ he => (he.callsKnown.append (.cast _ _)).append (.of_none (by simp))
  | _, _, _, _, .ret _ he => (he.callsKnown.append (.cast _ _)).append (.of_none (by simp))
  | _, _, _, _, .retEffect _ he => (he.callsKnown.append (.drop _)).append (.of_none (by simp))
  | _, _, _, _, .retZero => .zero _
  | _, _, _, _, .call he => he.callsKnown.append (.drop _)
  | _, _, _, _, .assert he =>
    (((he.callsKnown.append (.cast _ _)).append (.of_none (by simp))).append
      (.of_none (by simp [fatalCode]))).append (.of_none (by simp))
  | _, _, _, _, .abort => .of_none (by simp [fatalCode])
  | _, _, _, _, .loop hbody he =>
    ((hbody.callsKnown.mark _).append (he.callsKnown.append (.cast _ _))).append
      (.of_none (by simp))
  | _, _, _, _, .branch _ htests hbodies =>
    (htests.callsKnown.append (hbodies.callsKnown.jump _)).append (.of_none (by simp))
  | _, _, _, _, .branchElse _ htests hbodies helse =>
    ((htests.callsKnown.append (hbodies.callsKnown.jump _)).append
      (helse.callsKnown.mark _)).append (.of_none (by simp))

theorem StmtsCode.callsKnown : ∀ {body : List Stmt} {lo hi : Nat} {code : List Instr},
    StmtsCode fs vars result body lo code hi → CallsKnown fs code
  | _, _, _, _, .nil => .of_none (by simp)
  | _, _, _, _, .cons hfirst hrest => hfirst.callsKnown.append hrest.callsKnown

theorem BodiesCode.callsKnown : ∀ {done : Label} {arms : List BranchArm} {labels : List Label}
    {lo hi : Nat} {code : List Instr}, BodiesCode fs vars result done arms labels lo code hi →
      CallsKnown fs code
  | _, _, _, _, _, _, .nil => .of_none (by simp)
  | _, _, _, _, _, _, .cons hbody hrest =>
    (hbody.callsKnown.mark _).append (hrest.callsKnown.jump _)

end

/-! ## Blocks

The code of a function is that of its statements with a return behind it. The return is there even
if the statements never run to their end, so a block always ends with an instruction that does not
go on. -/

theorem zeroCode_final (t : ResultType) :
    ∃ init o, zeroCode t = init ++ [.op o] ∧ o.isTerminal = true := by
  cases t with
  | none => exact ⟨[], .retVoid, rfl, rfl⟩
  | some t => exact ⟨[.op (.const (.value (.zero t)))], .ret t, rfl, rfl⟩

/-- The variables of a function are found in the slots of its block. Parameters come first, then the
variables in the order of their declarations. -/
theorem FunctionCode.slotsFit {params : List Param} {body : List Stmt} {blk : Assembly.Block}
    {scope : Scope} {inputs : List (String × ValueType)} {code : List Instr} {labels : Nat}
    (h : FunctionCode fs params result body blk scope inputs code labels) :
    SlotsFit blk.slots fun name => scope.find? name := by
  intro name v hv
  obtain ⟨i, hi⟩ := Array.mem_iff_getElem?.mp (h.ordered.names.mp hv).1
  rw [h.ordered.slot hi, ← Array.getElem?_toList, h.slots, List.getElem?_map,
    Array.getElem?_toList, hi]
  rfl

/-- The block of a function is typed, its marks are distinct, and its first slots have the types of
the parameters. -/
theorem FunctionCode.typed {params : List Param} {body : List Stmt} {blk : Assembly.Block}
    {scope : Scope} {inputs : List (String × ValueType)} {code : List Instr} {labels : Nat}
    (h : FunctionCode fs params result body blk scope inputs code labels) :
    ∃ ann, blk.Typed ann := by
  have hresult : blk.signature.result = result := by rw [h.signature]
  -- the body may run off its end, and the zero code behind it is what makes the block end
  obtain ⟨ann, hann, -, hflows⟩ := (h.code.runs h.slotsFit []).append (zeroCode_runs [] [])
  obtain ⟨init, o, hinit, ho⟩ := zeroCode_final result
  refine ⟨ann, ?_, ⟨[], ?_⟩, ?_, ?_, ?_⟩
  · rw [hann, h.instrs]
  · rw [hresult]
    exact hflows ann (fun _ hx => hx) (by simp)
  · rw [hinit, ← List.append_assoc] at hann
    obtain ⟨before, last, rfl, -, hlast⟩ := List.map_eq_append_iff.mp hann
    obtain ⟨⟨s, i⟩, rfl, rfl⟩ := List.map_eq_singleton_iff.mp hlast
    exact ⟨before, s, o, rfl, ho⟩
  · rw [h.instrs, marksOf_append, marksOf_zeroCode, List.append_nil]
    exact h.code.exhausts.nodup
  · have htypes : blk.slots.toList = scope.declarations.map Prod.snd := by
      rw [h.slots, Scope.declarations, List.map_map]
      rfl
    rw [h.signature, htypes, h.declarations, List.map_append]
    exact List.prefix_append _ _

end

/-- The block that opens the input and the one that calls the body of the program are written by
hand, and so are their types. -/
theorem initBlock_typed : ∃ ann, initBlock.Typed ann := by
  refine ⟨[([], .op .openInput), ([], .op .retVoid)], rfl, ⟨[], ?_⟩, ?_, ?_, ?_⟩
  · exact .next .openInput (.stop (.retVoid rfl) .nil)
  · exact ⟨[([], .op .openInput)], [], .retVoid, rfl, rfl⟩
  · exact List.nodup_nil
  · exact List.nil_prefix

theorem startBlock_typed : ∃ ann, startBlock.Typed ann := by
  refine ⟨[([], .op (.call ⟨mainName, { result := some .int }⟩)), ([.int], .op .exit)], rfl,
    ⟨[], ?_⟩, ?_, ?_, ?_⟩
  · exact .next .call (.stop .exit .nil)
  · exact ⟨[([], .op (.call ⟨mainName, { result := some .int }⟩))], [.int], .exit, rfl, rfl⟩
  · exact List.nodup_nil
  · exact List.nil_prefix

end TypedStack.Compile
