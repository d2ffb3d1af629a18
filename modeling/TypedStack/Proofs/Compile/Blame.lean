import TypedStack.Proofs.Compile.Acceptance
import TypedStack.Proofs.Compile.Failures
/-!
# Errors and the places that they name

A module that is not lowered is refused with an error that names a rule, and mostly a place. What is
known of the failure of an expression is carried on to statements, along with the variables that the
statements before have declared, then to the bodies of functions and to modules.

The outcome is `lowering_blames_the_place_at_fault`: the place of an error lies in the tree, and
what stands there breaks the rule that the error names. The lemmas on failure go hand in hand with
those on success, since a rule is broken with respect to the variables in scope, and which these are
depends on all that was lowered before.
-/

set_option autoImplicit false

namespace TypedStack.Compile

open Assembly Evaluation

/-! ## Statements

An expression has one list of declarations for all its nodes. The places of a statement do not: a
statement in a loop or an arm sees what those before it have declared, so a place is a node together
with the declarations that hold there. -/

/-- One of some places breaks a rule, and it is the place that the error names. -/
def FaultyPlace (functions : List Function) (places : List Place) (loc : Location)
    (rule : Violation) : Prop :=
  ∃ place ∈ places, place.2.loc = loc ∧ place.2.Breaks functions place.1 rule

section

variable {functions : List Function} {vars : Declarations} {loc : Location} {rule : Violation}

theorem FaultyPlace.mono {places places' : List Place} (h : FaultyPlace functions places loc rule)
    (hsub : places ⊆ places') : FaultyPlace functions places' loc rule := by
  obtain ⟨place, hplace, hloc, hbreaks⟩ := h
  exact ⟨place, hsub hplace, hloc, hbreaks⟩

theorem FaultyPlace.self {st : Stmt} {places : List Place}
    (h : (Node.stmt st).Breaks functions vars rule) :
    FaultyPlace functions ((vars, .stmt st) :: places) st.loc rule :=
  ⟨_, List.mem_cons_self, rfl, h⟩

theorem FaultyPlace.below {place : Place} {places : List Place}
    (h : FaultyPlace functions places loc rule) :
    FaultyPlace functions (place :: places) loc rule :=
  h.mono (List.subset_cons_self _ _)

/-- A node of an expression that stands in a statement is a place of the statement, with the
declarations that hold at the statement. -/
theorem Faulty.placed {e : Expr} {use : Use} (h : Faulty functions vars (e.nodes use) loc rule) :
    FaultyPlace functions (e.places vars use) loc rule := by
  obtain ⟨node, hnode, hloc, hbreaks⟩ := h
  exact ⟨(vars, node), List.mem_map_of_mem hnode, hloc, hbreaks⟩

end

/-- A function being compiled has slots for its variables, and these are in scope. Lowering code for
a statement extends the list by what the statement declares (`Body.Declares.grows`), and writing
code alone leaves it as it is. That the slots are right is not needed for blame, but for the lemmas
on success that say what has been declared. -/
structure Body.Declares (b : Body) (vars : Declarations) : Prop where
  consistent : b.Consistent
  declarations : b.scope.declarations = vars

namespace Body.Declares

variable {b b' : Body} {vars ds : Declarations} {code : List Instr}

theorem shows (hb : b.Declares vars) : b.Shows vars := ⟨hb.consistent.ordered, hb.declarations⟩

theorem appends (hb : b.Declares vars) (h : b.Appends code b') : b'.Declares vars := by
  refine ⟨(h.grows hb.consistent).consistent, ?_⟩
  rw [h.scope]
  exact hb.declarations

theorem grows (hb : b.Declares vars) (h : b.Grows code ds b') : b'.Declares (vars ++ ds) := by
  refine ⟨h.consistent, ?_⟩
  rw [h.declarations, hb.declarations]

theorem missing (hb : b.Declares vars) {name : String} (h : b.scope.find? name = none) :
    name ∉ vars.map Prod.fst := by
  rw [← hb.declarations]
  exact hb.consistent.ordered.new_iff.mp h

end Body.Declares

namespace Lowering

variable {s : Surroundings} {functions : List Function} {vars : Declarations} {b : Body}
  {loc : Location} {rule : Violation}

/-- A return fails in its value. With a result the value has to be there, without one any expression
will do. -/
theorem giveBack_blames (hfs : Lists s.functions functions) (hb : b.Shows vars) {place : Location}
    {value : Option Expr} (h : giveBack s place value b = .error (.broken loc rule)) :
    FaultyPlace functions ((Stmt.ret place value).inner s.result vars) loc rule := by
  cases value with
  | none =>
    cases hr : s.result with
    | none => simp [giveBack, hr] at h
    | some t => simp [giveBack, hr, state_bind_fails] at h
  | some e =>
    cases hr : s.result with
    | none =>
      simp only [giveBack, hr, state_bind_fails, drop_fails, setLine_fails, emit_fails, and_false,
        exists_false, or_false] at h
      exact (expr_blames hfs e .effect hb h).placed
    | some t =>
      simp only [giveBack, hr, state_bind_fails, emit_fails, and_false, exists_false, or_false] at h
      exact (exprAs_blames hfs hb h).placed

/-- A declared variable gets its slot: its type and its name have been checked before, so that this
step cannot be the one that breaks a rule. -/
theorem bindName_total {name : String} {t : ValueType} {place : Location} (b' : Body)
    (hscope : b'.scope = b.scope) (hfree : b.scope.contains name = false) :
    bindName name (some t) place b' ≠ .error (.broken loc rule) := by
  intro h
  rw [bindName_fails, Scope.next_fails, hscope, hfree] at h
  rcases h with ⟨hvoid, -⟩ | ⟨_, -, ⟨htaken, -⟩ | ⟨-, -, heq⟩⟩
  · cases hvoid
  · cases htaken
  · cases heq

/-- A declaration fails for its name, for its type, or in its initial value. The three are checked
in this order, and the value is lowered before the name is in scope. -/
theorem declare_blames (hfs : Lists s.functions functions) (hb : b.Declares vars) {place : Location}
    {name : String} {type : ResultType} {init : Option Expr}
    (h : declare s place name type init b = .error (.broken loc rule)) :
    FaultyPlace functions ((vars, .stmt (.declare place name type init)) ::
      (Stmt.declare place name type init).inner s.result vars) loc rule := by
  simp only [declare, state_throw_bind] at h
  rw [state_get_bind, state_guard_fails] at h
  rcases h with ⟨htaken, heq⟩ | ⟨hfree, h⟩
  · cases heq
    refine .self (.redeclaration ?_)
    by_contra hnew
    rw [← hb.declarations, ← hb.consistent.ordered.contains_iff] at hnew
    rw [hnew] at htaken
    cases htaken
  · have hnew : b.scope.contains name = false := by simpa using hfree
    rw [state_bind_fails, state_lift_fails, valueType_fails] at h
    rcases h with ⟨rfl, heq⟩ | ⟨t, _, hlift, h⟩
    · cases heq
      exact .self .voidVariable
    · obtain ⟨ht, rfl⟩ := state_lift_ok.mp hlift
      obtain rfl := valueType_ok.mp ht
      cases init with
      | none =>
        simp only [state_bind_fails, push_fails, state_discard_fails, addSlot_fails, emit_fails,
          and_false, exists_false, or_false, false_or] at h
        obtain ⟨_, b₁, hpush, hbind⟩ := h
        exact absurd hbind (bindName_total b₁ (push_ok hpush).1.scope hnew)
      | some e =>
        simp only [state_bind_fails, state_discard_fails, addSlot_fails, emit_fails, and_false,
          exists_false, or_false] at h
        rcases h with hinit | ⟨_, b₁, hinit, hbind⟩
        · exact (exprAs_blames hfs hb.shows hinit).placed.below
        · obtain ⟨_, _, _, _, _, ha, _⟩ := exprAs_generates hinit
          exact absurd hbind (bindName_total b₁ ha.scope hnew)

/-- The tests of a branch fail in one of their values, none of which sees anything that an arm
declares. -/
theorem tests_blame (hfs : Lists s.functions functions) {target : Variable} {place : Location} :
    ∀ (arms : List BranchArm) {b : Body}, b.Shows vars →
      tests s target place arms b = .error (.broken loc rule) →
      FaultyPlace functions (arms.flatMap (·.test.value.places vars .value)) loc rule
  | [], b, hb, h => by simp [tests, state_pure_fails] at h
  | .mk test body :: rest, b, hb, h => by
    simp only [tests, state_bind_fails, typeOf_fails, state_lift_fails, valueType_fails, emit_fails,
      cast_fails, freshLabel_fails, state_pure_fails, and_false, exists_false, or_false,
      false_or] at h
    rcases h with htype | ⟨tv, _, hlookup, h⟩
    · exact (typeOf_faulty hfs hb .value htype).placed.mono (List.subset_append_left _ _)
    obtain ⟨htv, rfl⟩ := typeOf_ok hlookup
    rcases h with ⟨hnone, heq⟩ | ⟨t, _, hlift, _, b₁, hload, h⟩
    · cases heq
      obtain rfl := (promote_eq_none hnone).resolve_left (by simp)
      exact (Faulty.void (typeOf_gives hfs hb htv)).placed.mono (List.subset_append_left _ _)
    obtain ⟨ht, rfl⟩ := state_lift_ok.mp hlift
    rw [valueType_ok.mp ht] at h
    obtain ⟨a₁, -⟩ := emit_ok hload
    rcases h with ⟨hvoid, -⟩ | ⟨_, b₂, hcast, h⟩
    · simp at hvoid
    obtain ⟨_, _, _, _, a₂, _⟩ := cast_ok hcast
    have hb₂ := hb.of_scope (a₁.trans a₂).scope
    rcases h with hvalue | ⟨_, b₃, hvalue, _, b₄, hcompare, arm, b₅, harm, _, b₆, hjump, hrest⟩
    · exact (exprAs_blames hfs hb₂ hvalue).placed.mono (List.subset_append_left _ _)
    · obtain ⟨_, _, _, _, _, a₃, _⟩ := exprAs_generates hvalue
      obtain ⟨a₄, -⟩ := emit_ok hcompare
      obtain ⟨-, a₅, -⟩ := freshLabel_ok harm
      obtain ⟨a₆, -⟩ := emit_ok hjump
      have hb₆ := hb₂.of_scope (a₃.trans (a₄.trans (a₅.trans a₆))).scope
      exact (tests_blame hfs rest hb₆ hrest).mono (List.subset_append_right _ _)

/-- What a branch begins with: its target is looked up and its tests are written. Either this fails,
or it is the rest of the branch that does, with the same declarations as at its start. -/
theorem branch_fails (hfs : Lists s.functions functions) (hb : b.Declares vars) {place : Location}
    {target : String} {arms : List BranchArm} {otherwise : Option (List Stmt)}
    {k : Label → List Label → Lowering Unit}
    (h : (do
      setLine place.line
      let v ← lookup target place
      let done ← freshLabel
      let labels ← tests s v place arms
      k done labels) b = .error (.broken loc rule)) :
    FaultyPlace functions ((vars, .stmt (.branch place target arms otherwise)) ::
      arms.flatMap (·.test.value.places vars .value)) loc rule ∨
    ∃ done labels b', labels.length = arms.length ∧ b'.Declares vars ∧
      k done labels b' = .error (.broken loc rule) := by
  simp only [state_bind_fails, setLine_fails, lookup_fails, freshLabel_fails, false_or] at h
  obtain ⟨_, b₁, hline, h⟩ := h
  have hb₁ := hb.appends (setLine_ok hline).1
  rcases h with ⟨hnone, heq⟩ | ⟨v, _, hv, done, b₂, hdone, h⟩
  · cases heq
    exact .inl (.self (.undefinedVariable rfl (hb₁.missing hnone)))
  obtain ⟨-, rfl⟩ := lookup_ok hv
  have hb₂ := hb₁.appends (freshLabel_ok hdone).2.1
  rcases h with htests | ⟨labels, b₃, htests, h⟩
  · exact .inl (tests_blame hfs arms hb₂.shows htests).below
  · obtain ⟨hlength, code, ha, -⟩ := tests_generates arms htests
    exact .inr ⟨done, labels, b₃, hlength, hb₂.appends ha, h⟩

mutual

-- A part that was lowered before the one that fails has declared its variables, which is what the
-- lemmas on success say of it.
/-- A statement that is not lowered breaks a rule itself, or a place in it does. -/
theorem stmt_blames (hfs : Lists s.functions functions) :
    ∀ (st : Stmt) {b : Body} {vars : Declarations}, b.Declares vars →
      stmt s st b = .error (.broken loc rule) →
      FaultyPlace functions ((vars, .stmt st) :: st.inner s.result vars) loc rule
  | .read place target, b, vars, hb, h => by
    simp only [stmt, state_bind_fails, setLine_fails, lookup_fails, emit_fails, and_false,
      exists_false, or_false, false_or] at h
    obtain ⟨_, b₁, hline, hnone, heq⟩ := h
    cases heq
    exact .self (.undefinedVariable rfl ((hb.appends (setLine_ok hline).1).missing hnone))
  | .print place value, b, vars, hb, h => by
    simp only [stmt, state_bind_fails, setLine_fails, typeOf_fails, state_lift_fails,
      valueType_fails, state_discard_fails, emit_fails, and_false, exists_false, or_false,
      false_or] at h
    obtain ⟨_, b₁, hline, h⟩ := h
    have hb₁ := (hb.appends (setLine_ok hline).1).shows
    rcases h with htype | ⟨tv, _, hlookup, h⟩
    · exact (typeOf_faulty hfs hb₁ .value htype).placed.below
    obtain ⟨htv, rfl⟩ := typeOf_ok hlookup
    rcases h with ⟨rfl, heq⟩ | ⟨t, _, hlift, hvalue⟩
    · cases heq
      exact (Faulty.void (typeOf_gives hfs hb₁ htv)).placed.below
    · obtain ⟨-, rfl⟩ := state_lift_ok.mp hlift
      exact (expr_blames hfs value .value hb₁ hvalue).placed.below
  | .declare place name type init, b, vars, hb, h => by
    simp only [stmt, state_bind_fails, setLine_fails, false_or] at h
    obtain ⟨_, b₁, hline, h⟩ := h
    exact declare_blames hfs (hb.appends (setLine_ok hline).1) h
  | .assign place name value, b, vars, hb, h => by
    simp only [stmt, state_bind_fails, setLine_fails, lookup_fails, emit_fails, and_false,
      exists_false, or_false, false_or] at h
    obtain ⟨_, b₁, hline, h⟩ := h
    have hb₁ := hb.appends (setLine_ok hline).1
    rcases h with ⟨hnone, heq⟩ | ⟨v, _, hv, hvalue⟩
    · cases heq
      exact .self (.undefinedVariable rfl (hb₁.missing hnone))
    · obtain ⟨-, rfl⟩ := lookup_ok hv
      exact (exprAs_blames hfs hb₁.shows hvalue).placed.below
  | .ret place value, b, vars, hb, h => by
    simp only [stmt, state_bind_fails, setLine_fails, false_or] at h
    obtain ⟨_, b₁, hline, h⟩ := h
    -- the value is judged against the result of the function
    exact (giveBack_blames hfs (hb.appends (setLine_ok hline).1).shows h).below
  | .call place name args, b, vars, hb, h => by
    simp only [stmt, state_bind_fails, setLine_fails, drop_fails, and_false, exists_false, or_false,
      false_or] at h
    obtain ⟨_, b₁, hline, h⟩ := h
    -- no value is needed of a call that is a statement
    exact (expr_blames hfs _ .effect (hb.appends (setLine_ok hline).1).shows h).placed.below
  | .assert place condition, b, vars, hb, h => by
    simp only [stmt, state_bind_fails, setLine_fails, freshLabel_fails, emit_fails, fatal_fails,
      mark_fails, and_false, exists_false, or_false, false_or] at h
    obtain ⟨_, b₁, hline, ok, b₂, hok, h⟩ := h
    have hb₂ := hb.appends ((setLine_ok hline).1.trans (freshLabel_ok hok).2.1)
    exact (exprAs_blames hfs hb₂.shows h).placed.below
  | .abort place, b, vars, hb, h => by
    -- none of the steps can fail
    simp [stmt, state_bind_fails] at h
  | .loop place body condition, b, vars, hb, h => by
    simp only [stmt, state_bind_fails, setLine_fails, freshLabel_fails, mark_fails, emit_fails,
      and_false, exists_false, or_false, false_or] at h
    obtain ⟨_, b₁, hline, start, b₂, hstart, _, b₃, hmark, h⟩ := h
    have hb₃ := hb.appends
      (((setLine_ok hline).1.trans (freshLabel_ok hstart).2.1).trans (mark_ok hmark).1)
    rcases h with hbody | ⟨_, b₄, hbody, _, b₅, hline', hcondition⟩
    · exact ((stmts_blame hfs body hb₃ hbody).mono (List.subset_append_left _ _)).below
    -- the body has been lowered, and the condition sees what it declares
    · obtain ⟨code, hgrows, -⟩ := stmts_generates body hbody hb₃.consistent
      have hb₅ := (hb₃.grows hgrows).appends (setLine_ok hline').1
      exact ((exprAs_blames hfs hb₅.shows hcondition).placed.mono
        (List.subset_append_right _ _)).below
  | .branch place target arms none, b, vars, hb, h => by
    simp only [stmt] at h
    rcases branch_fails hfs hb h with htests | ⟨done, labels, b₁, -, hb₁, h⟩
    · exact htests.mono (List.cons_subset_cons _ (List.subset_append_left _ _))
    · simp only [state_bind_fails, emit_fails, mark_fails, and_false, exists_false, or_false,
        false_or] at h
      obtain ⟨_, b₂, hjump, hbodies⟩ := h
      have hb₂ := hb₁.appends (emit_ok hjump).1
      exact ((bodies_blame hfs arms hb₂ hbodies).mono (List.subset_append_right _ _)).below
  | .branch place target arms (some otherwise), b, vars, hb, h => by
    simp only [stmt] at h
    rcases branch_fails hfs hb h with htests | ⟨done, labels, b₁, hlength, hb₁, h⟩
    · refine htests.mono (List.cons_subset_cons _ ?_)
      exact List.Subset.trans (List.subset_append_left _ _) (List.subset_append_left _ _)
    · simp only [state_bind_fails, freshLabel_fails, emit_fails, mark_fails, and_false,
        exists_false, or_false, false_or] at h
      obtain ⟨default, b₂, hdefault, _, b₃, hjump, h⟩ := h
      have hb₃ := hb₁.appends ((freshLabel_ok hdefault).2.1.trans (emit_ok hjump).1)
      rcases h with hbodies | ⟨_, b₄, hbodies, _, b₅, hmark, helse⟩
      · refine ((bodies_blame hfs arms hb₃ hbodies).mono ?_).below
        exact List.Subset.trans (List.subset_append_right _ _) (List.subset_append_left _ _)
      -- the last body sees the declarations of all arms
      · obtain ⟨code, hgrows, -⟩ := bodies_generates arms hbodies hb₃.consistent hlength
        have hb₅ := (hb₃.grows hgrows).appends (mark_ok hmark).1
        exact ((stmts_blame hfs otherwise hb₅ helse).mono (List.subset_append_right _ _)).below

/-- The first statement that is not lowered is to blame. Those before it have declared their
variables. -/
theorem stmts_blame (hfs : Lists s.functions functions) :
    ∀ (body : List Stmt) {b : Body} {vars : Declarations}, b.Declares vars →
      stmts s body b = .error (.broken loc rule) →
      FaultyPlace functions (Stmt.places s.result vars body) loc rule
  | [], b, vars, hb, h => by
    simp [stmts, state_pure_fails] at h
  | first :: rest, b, vars, hb, h => by
    simp only [stmts, state_bind_fails] at h
    rcases h with hfirst | ⟨_, b₁, hfirst, hrest⟩
    · exact (stmt_blames hfs first hb hfirst).mono (List.subset_append_left _ _)
    · obtain ⟨code, hgrows, -⟩ := stmt_generates first hfirst hb.consistent
      exact (stmts_blame hfs rest (hb.grows hgrows) hrest).mono (List.subset_append_right _ _)

/-- Arms see what the arms before them have declared, as if these had all run. -/
theorem bodies_blame (hfs : Lists s.functions functions) :
    ∀ (arms : List BranchArm) {done : Label} {labels : List Label} {b : Body} {vars : Declarations},
      b.Declares vars → bodies s done arms labels b = .error (.broken loc rule) →
      FaultyPlace functions (BranchArm.places s.result vars arms) loc rule
  | [], done, labels, b, vars, hb, h => by
    simp [bodies, state_pure_fails] at h
  | .mk test body :: rest, done, [], b, vars, hb, h => by
    simp [bodies, state_pure_fails] at h
  | .mk test body :: rest, done, label :: labels, b, vars, hb, h => by
    simp only [bodies, state_bind_fails, mark_fails, emit_fails, false_or] at h
    obtain ⟨_, b₁, hmark, h⟩ := h
    have hb₁ := hb.appends (mark_ok hmark).1
    rcases h with hbody | ⟨_, b₂, hbody, _, b₃, hjump, hrest⟩
    · exact (stmts_blame hfs body hb₁ hbody).mono (List.subset_append_left _ _)
    · obtain ⟨code, hgrows, -⟩ := stmts_generates body hbody hb₁.consistent
      have hb₃ := (hb₁.grows hgrows).appends (emit_ok hjump).1
      exact (bodies_blame hfs rest hb₃ hrest).mono (List.subset_append_right _ _)

end

end Lowering

/-! ## Functions

The parameters are declared before the statements, at the place where the function starts. -/

/-- A parameter that cannot be bound has no type, or a name that is taken: by a parameter before it,
or by what was in scope from the start. -/
theorem Scope.bindParams_blames {place loc : Location} {rule : Violation} :
    ∀ {params : List Param} {scope scope' : Scope}, scope.Ordered →
      (bindParams place params).on scope = (.error (.broken loc rule), scope') →
      loc = place ∧ ∃ before p after, params = before ++ p :: after ∧
        (p.type = none ∧ rule = .voidValueUsed ∨ rule = .redeclaration p.name ∧
          p.name ∈ scope.declarations.map Prod.fst ++ before.map (·.name))
  | [], scope, _, hs, h => by cases h
  | p :: params, scope, _, hs, h => by
    cases hnext : scope.next p.name p.type true place with
    | error e =>
      rw [bindParams_cons_refused hnext] at h
      cases h
      rcases next_fails.mp hnext with ⟨hvoid, heq⟩ | ⟨t, ht, ⟨htaken, heq⟩ | ⟨-, -, heq⟩⟩
      · cases heq
        exact ⟨rfl, [], p, params, rfl, .inl ⟨hvoid, rfl⟩⟩
      · cases heq
        refine ⟨rfl, [], p, params, rfl, .inr ⟨rfl, ?_⟩⟩
        rw [List.map_nil, List.append_nil]
        by_contra hnew
        rw [hs.contains_iff.mpr hnew] at htaken
        cases htaken
      · cases heq
    | ok v =>
      rw [bindParams_cons_bound hnext] at h
      obtain ⟨hnew, hroom, hname, -, hslot, -⟩ := next_ok hnext
      obtain ⟨rfl, before, q, after, rfl, hfault⟩ :=
        bindParams_blames (hs.add (hname ▸ hnew) hroom hslot) h
      refine ⟨rfl, p :: before, q, after, rfl, ?_⟩
      rw [declarations_add, List.map_append, List.append_assoc] at hfault
      rw [List.map_cons, ← hname]
      exact hfault

/-- A body that is not lowered breaks the rule, at the place that the error names. This is so for
the functions of a module and for the body of the program alike, which is lowered as one that gives
back an integer. -/
theorem lowerBody_blames {fs : FunctionTable} {functions : List Function} (hfs : Lists fs functions)
    {name : String} {params : List Param} {result : ResultType} {body : List Stmt}
    {start loc : Location} {rule : Violation}
    (h : lowerBody fs name params result body start = .error (.broken loc rule)) :
    BodyBreaks functions params result body start loc rule := by
  simp only [lowerBody, except_bind_fails] at h
  rcases h with hparams | ⟨scope, hscope, htypes | ⟨types, htypes, h⟩⟩
  · obtain ⟨_, hbound⟩ := Scope.ofParams_fails_iff.mp hparams
    obtain ⟨rfl, before, p, after, rfl, ⟨hvoid, rfl⟩ | ⟨rfl, htaken⟩⟩ :=
      Scope.bindParams_blames Scope.ordered_empty hbound
    · exact .voidParameter (by simp) hvoid
    · exact .repeatedParameter rfl htaken
  · obtain ⟨p, hp, hfails⟩ := except_mapM_error htypes
    obtain ⟨hvoid, heq⟩ := valueType_fails.mp hfails
    cases heq
    exact .voidParameter hp hvoid
  · obtain ⟨-, hstart⟩ := start_consistent name result hscope htypes
    have hinputs : params.filterMap Param.declaration? = scope.declarations := by
      rw [(Scope.ofParams_ok hscope).2, filterMap_paramOf]
    rcases h with h | ⟨_, -, hpure⟩
    · rw [state_bind_fails] at h
      rcases h with hbody | ⟨_, b, hbody, hreturn⟩
      · obtain ⟨⟨vars, node⟩, hplace, rfl, hbreaks⟩ :=
          Lowering.stmts_blame hfs body ⟨hstart, rfl⟩ hbody
        rw [← hinputs] at hplace
        exact .node hplace hbreaks
      · -- the zero that a body gives back at its end needs no value
        obtain ⟨code, hgrows, -⟩ := Lowering.stmts_generates body hbody hstart
        obtain ⟨place, hplace, -⟩ :=
          Lowering.giveBack_blames hfs ⟨hgrows.consistent.ordered, rfl⟩ hreturn
        cases hplace
    · cases hpure

/-! ## Modules

All functions are entered in the table before any of them is lowered. So names are checked first,
and a call may refer to a function further down. -/

/-- A function is refused for its name only, and the error lies at the place of the function. -/
theorem addFunction_fails {table : FunctionTable} {f : Function} {err : CompileError}
    (h : addFunction table f = .error err) :
    (isReservedName f.name = true ∨ table.contains f.name = true) ∧
      err = .broken f.loc (.duplicateFunction f.name) := by
  unfold addFunction at h
  cases hfree : isReservedName f.name with
  | true =>
    simp only [hfree, if_true, Except.error.injEq] at h
    exact ⟨.inl rfl, h.symm⟩
  | false =>
    cases hnew : table.contains f.name with
    | true =>
      simp only [hfree, FunctionTable.add?, hnew, Bool.false_eq_true, if_false, if_true,
        Except.error.injEq] at h
      exact ⟨.inr rfl, h.symm⟩
    | false => simp [hfree, FunctionTable.add?, hnew] at h

/-- The functions before the first that cannot be added are listed. The one that cannot clashes with
one of them, or its name is reserved. -/
theorem Lists.fold_fails {rest done : List Function} {sofar : FunctionTable} {err : CompileError}
    (h : Lists sofar done) (hrest : rest.foldlM addFunction sofar = .error err) :
    ∃ before f after table, rest = before ++ f :: after ∧ Lists table (done ++ before) ∧
      f.Clashes (done ++ before) ∧ err = .broken f.loc (.duplicateFunction f.name) := by
  induction rest generalizing done sofar with
  | nil => cases hrest
  | cons f rest ih =>
    rw [List.foldlM_cons, except_bind_fails] at hrest
    rcases hrest with hf | ⟨next, hnext, hrest⟩
    · obtain ⟨hclash, rfl⟩ := addFunction_fails hf
      refine ⟨[], f, rest, sofar, rfl, by rwa [List.append_nil], ?_, rfl⟩
      rw [List.append_nil]
      rcases hclash with hreserved | htaken
      · refine .inl ?_
        by_contra hfree
        rw [← isReservedName_eq_false, hreserved] at hfree
        cases hfree
      · refine .inr ?_
        rw [Std.HashMap.contains_eq_isSome_getElem?, Option.isSome_iff_exists] at htaken
        obtain ⟨sig, hsig⟩ := htaken
        obtain ⟨g, hg, hname, -⟩ := h.entry.mp hsig
        exact hname ▸ List.mem_map_of_mem hg
    · obtain ⟨hfree, hnew, rfl⟩ := addFunction_ok hnext
      obtain ⟨before, g, after, table, rfl, hlists, hclash, herr⟩ := ih (h.insert hfree hnew) hrest
      rw [← List.append_cons] at hlists hclash
      exact ⟨f :: before, g, after, table, rfl, hlists, hclash, herr⟩

/-- None of the functions that a table lists clashes with those before it. So the first function to
be refused is the first that clashes. -/
theorem Lists.not_clashes {table : FunctionTable} {functions before after : List Function}
    {f : Function} (h : Lists table functions) (hsplit : functions = before ++ f :: after) :
    ¬ f.Clashes before := by
  subst hsplit
  rintro (hreserved | htaken)
  · exact isReservedName_eq_false.mp (h.free f (by simp)) hreserved
  · have hnames := h.names
    rw [List.map_append, List.nodup_append] at hnames
    exact hnames.2.2 _ htaken _ (by simp) rfl

theorem entryBlocks_fails {fs : FunctionTable} {entry : Option Entry} {err : CompileError}
    (h : entryBlocks fs entry = .error err) :
    ∃ e, entry = some e ∧ lowerEntry fs e = .error err := by
  cases entry with
  | none => cases h
  | some e =>
    simp only [entryBlocks, except_bind_fails] at h
    rcases h with he | ⟨main, -, hpure⟩
    · exact ⟨e, rfl, he⟩
    · cases hpure

/-- **Errors name the place at fault.** A module that is refused at a place either has a function
whose name is reserved or taken, and the place is that of the first such function. Or all names are
free, and a function, or the body of the program, has a place there that breaks the rule: all
functions before it are lowered, and lowering it fails with the error that is reported. -/
theorem lowering_blames_the_place_at_fault (options : Options) (m : Module) {e : CompileError}
    {loc : Location} (h : lowerModule options m = .error e) (hloc : e.location? = some loc) :
    ∃ rule, e = .broken loc rule ∧
      ((∃ before f after, m.functions = before ++ f :: after ∧ f.Clashes before ∧
          (∀ before' g after', before = before' ++ g :: after' → ¬ g.Clashes before') ∧
          functionTable m.functions = .error e ∧ loc = f.loc ∧ rule = .duplicateFunction f.name) ∨
        ∃ fs, functionTable m.functions = .ok fs ∧
          ((∃ before f after, m.functions = before ++ f :: after ∧
            (∀ g ∈ before, ∃ blk, lowerFunction fs g = .ok blk) ∧ lowerFunction fs f = .error e ∧
            BodyBreaks m.functions f.params f.result f.body f.loc loc rule) ∨
          ∃ entry, m.entry = some entry ∧
            (∀ g ∈ m.functions, ∃ blk, lowerFunction fs g = .ok blk) ∧
            lowerEntry fs entry = .error e ∧
            BodyBreaks m.functions [] (some .int) entry.body entry.loc loc rule)) := by
  obtain ⟨rule, rfl⟩ : ∃ rule, e = .broken loc rule := by
    cases e with
    | broken place rule =>
      cases hloc
      exact ⟨rule, rfl⟩
    | invalidName name | internal cause | cannotWrite reason => cases hloc
  refine ⟨rule, rfl, ?_⟩
  by_cases hname : Text.isIdentifier (options.artifactName.getD m.name) = true
  case neg =>
    simp only [lowerModule, hname, Bool.false_eq_true, if_false, except_throw_bind] at h
    cases h
  simp only [lowerModule, hname, if_true, except_bind_fails] at h
  rcases h with htable | ⟨fs, hfs, hfunctions | ⟨blocks, hblocks, hentry | ⟨_, -, hpure⟩⟩⟩
  · obtain ⟨before, f, after, table, hsplit, hlists, hclash, heq⟩ := Lists.empty.fold_fails htable
    cases heq
    exact .inl ⟨before, f, after, hsplit, hclash, fun _ _ _ => hlists.not_clashes, htable, rfl, rfl⟩
  · obtain ⟨before, f, after, hsplit, hbefore, hf⟩ := except_mapM_fails hfunctions
    have hbreaks := lowerBody_blames (functionTable_ok hfs) hf
    exact .inr ⟨fs, hfs, .inl ⟨before, f, after, hsplit, hbefore, hf, hbreaks⟩⟩
  · obtain ⟨entry, hsome, hfails⟩ := entryBlocks_fails hentry
    have hbreaks := lowerBody_blames (functionTable_ok hfs) hfails
    have hlowered := except_mapM_exists.mp ⟨blocks, hblocks⟩
    exact .inr ⟨fs, hfs, .inr ⟨entry, hsome, hlowered, hfails, hbreaks⟩⟩
  · cases hpure

/-- A function without a result, and one that takes its result for an operand. The comparison stands
in the condition of a loop and sees a variable of the loop's body. -/
def muteModule : Module where
  functions := [{
    name := "mute"
    result := none
    body := [] }, {
    name := "loud"
    result := some .int
    params := [⟨"x", some .int⟩]
    body := [.loop {} [.declare {} "y" (some .int) (some (.variable {} "x"))]
      (.comparison ⟨"loud", 2, 8⟩ .lt (.variable {} "y") (.call ⟨"loud", 2, 12⟩ "mute" []))] }]

theorem muteModule_fails :
    lowerModule {} muteModule = .error (.broken ⟨"loud", 2, 8⟩ .voidValueUsed) := by
  rw [lowerModule_run (by decide +kernel)]
  simp [muteModule, functionTable_eq, isReservedName_eq, lowerBody_run, Scope.ofParams_eq]

/-- The comparison lacks one of its operands, and so the place of the comparison is named. -/
theorem lowering_blames_the_place_at_fault_mute :
    lowerModule {} muteModule = .error (.broken ⟨"loud", 2, 8⟩ .voidValueUsed) ∧
    ∃ fs, functionTable muteModule.functions = .ok fs ∧ ∃ f ∈ muteModule.functions,
      lowerFunction fs f = .error (.broken ⟨"loud", 2, 8⟩ .voidValueUsed) ∧
      BodyBreaks muteModule.functions f.params f.result f.body f.loc ⟨"loud", 2, 8⟩
        .voidValueUsed := by
  refine ⟨muteModule_fails, ?_⟩
  obtain ⟨rule, heq, h⟩ := lowering_blames_the_place_at_fault {} muteModule muteModule_fails rfl
  cases heq
  rcases h with ⟨_, _, _, _, _, _, _, _, hrule⟩ |
    ⟨fs, hfs, ⟨before, f, after, hsplit, _, hfails, hbreaks⟩ | ⟨entry, hentry, _⟩⟩
  · cases hrule
  · exact ⟨fs, hfs, f, by rw [hsplit]; simp, hfails, hbreaks⟩
  · cases hentry

end TypedStack.Compile
