import TypedStack.Proofs.Compile.Scoping
/-!
# What is compiled

Lowering accepts exactly the well-formed modules (`lowering_accepts_well_formed`). Each function of
the code generator has two lemmas. If it succeeds, the tree keeps the rules with the variables that
the scope shows before and behind it; and it succeeds on every tree that does.

The rules know declarations, names with types in their order, and nothing of scopes, slots or code.
A function being compiled shows the declarations of its scope (`Body.Shows`), and almost every step
of the generator leaves the scope alone. So along the steps of a statement there is one fact to
carry, and the rule of the statement is put together from what its parts have given.
-/

set_option autoImplicit false

namespace TypedStack.Compile

open Assembly Evaluation

namespace Lowering

variable {s : Surroundings} {functions : List Function} {vars : Declarations} {b b' : Body}

/-! ## Statements that are lowered

From success to the rules. The chain of steps is taken apart, and each step says what has been
checked. The states on the way are numbered as the steps are, and for each `bᵢ` there is a fact
`hbᵢ` that says which declarations it shows. -/

/-- What may be given back depends on the result of the function: a value for a result, anything
where there is none, and nothing in either case. -/
theorem giveBack_allowed (hs : Offers s.functions functions) (hb : b.Shows vars) {loc : Location}
    {value : Option Expr} {u : Unit} (h : giveBack s loc value b = .ok (u, b')) :
    Stmt.Allowed functions s.result vars (.ret loc value) vars ∧ b'.Shows vars := by
  obtain ⟨code, happ, hgen⟩ := giveBack_generates h
  have hcode : StmtCode s.functions (fun name => b.scope.find? name) s.result (.ret loc value)
      b.labels code b'.labels := hgen fun hv => hv
  refine ⟨?_, happ.shows hb⟩
  -- which of the three rules applies can be seen from the code that was generated
  generalize b.labels = lo, b'.labels = hi at hcode
  cases hcode with
  | ret hr he => exact .ret (by simp [hr]) ⟨_, he.hasType hs.table hb.declared⟩
  | retEffect hr he => exact .retEffect hr (he.hasType hs.table hb.declared)
  | retZero => exact .retZero

/-- A name that gets the next slot was not in scope, and is now. The slot and the variable are
numbered alike, but that is not needed here. -/
theorem store_shows (hb : b.Shows vars) {name : String} {type : ResultType} {loc : Location}
    {v : Variable} {t : ValueType} {slot : UInt16} {b₁ b₂ : Body} {u : Unit}
    (hbind : bindName name type loc b = .ok (v, b₁)) (hslot : addSlot t b₁ = .ok (slot, b₂))
    (hemit : emit (.store t slot) b₂ = .ok (u, b')) :
    name ∉ vars.map Prod.fst ∧ type = some v.type ∧ b'.Shows (vars ++ [(name, v.type)]) := by
  obtain ⟨hnext, rfl⟩ := bindName_ok.mp hbind
  obtain ⟨-, rfl⟩ := addSlot_ok.mp hslot
  obtain ⟨hnew, hroom, rfl, htype, hnumber, -⟩ := Scope.next_ok hnext
  refine ⟨?_, htype, (emit_ok hemit).1.shows ⟨hb.ordered.add hnew hroom hnumber, ?_⟩⟩
  · rw [← hb.declarations]
    exact hb.ordered.new_iff.mp (Scope.find?_of_new hnew)
  · rw [← hb.declarations]
    exact Scope.declarations_add _ v

/-- The value of a declaration is lowered before its name comes into scope. -/
theorem declare_allowed (hs : Offers s.functions functions) (hb : b.Shows vars) {loc : Location}
    {name : String} {type : ResultType} {init : Option Expr} {u : Unit}
    (h : declare s loc name type init b = .ok (u, b')) :
    ∃ vars', Stmt.Allowed functions s.result vars (.declare loc name type init) vars' ∧
      b'.Shows vars' := by
  cases init with
  | none =>
    simp only [declare, state_throw_bind, state_bind_ok, state_get_ok, state_guard_ok,
      state_lift_ok, state_discard_ok] at h
    obtain ⟨_, _, ⟨rfl, rfl⟩, -, t, _, ⟨-, rfl⟩, _, mid, hpush, _, b₁, ⟨v, hbind⟩, slot, b₂, hslot,
      hemit⟩ := h
    obtain ⟨hnew, rfl, hb'⟩ := store_shows ((push_ok hpush).1.shows hb) hbind hslot hemit
    exact ⟨_, .declare hnew (by rintro _ ⟨⟩), hb'⟩
  | some e =>
    simp only [declare, state_throw_bind, state_bind_ok, state_get_ok, state_guard_ok,
      state_lift_ok, state_discard_ok] at h
    obtain ⟨_, _, ⟨rfl, rfl⟩, -, t, _, ⟨-, rfl⟩, _, mid, he, _, b₁, ⟨v, hbind⟩, slot, b₂, hslot,
      hemit⟩ := h
    obtain ⟨hvalue, hmid⟩ := exprAs_hasValue hs hb he
    obtain ⟨hnew, rfl, hb'⟩ := store_shows hmid hbind hslot hemit
    refine ⟨_, .declare hnew ?_, hb'⟩
    rintro _ ⟨⟩
    exact hvalue

/-- The values of all tests have types, and there is a label for each arm. -/
theorem tests_haveValues (hs : Offers s.functions functions) (hb : b.Shows vars) {target : Variable}
    {loc : Location} {arms : List BranchArm} {labels : List Label}
    (h : tests s target loc arms b = .ok (labels, b')) :
    (∀ arm ∈ arms, arm.test.value.HasValue functions vars) ∧ labels.length = arms.length ∧
      b'.Shows vars := by
  obtain ⟨hlength, code, happ, hgen⟩ := tests_generates arms h
  have hcode : TestsCode s.functions (fun name => b.scope.find? name) target arms b.labels code
      labels b'.labels := hgen fun hv => hv
  refine ⟨?_, hlength, happ.shows hb⟩
  -- by induction on the code of the tests, for which the scope is the same throughout
  clear hgen hlength happ h
  generalize b.labels = lo, b'.labels = hi at hcode
  induction hcode with
  | nil => simp
  | cons he _ _ ih =>
    intro arm harm
    rcases List.mem_cons.mp harm with rfl | harm
    · exact ⟨_, he.hasType hs.table hb.declared⟩
    · exact ih arm harm

mutual

-- The scope is followed through the steps of the generator, most of which leave it alone. Only a
-- declaration binds a name, so what is in scope behind a statement comes from those inside it.
/-- A statement that is lowered keeps the rules, and the scope shows what it leaves declared. -/
theorem stmt_allowed (hs : Offers s.functions functions) :
    ∀ (st : Stmt) {b b' : Body} {u : Unit} {vars : Declarations}, b.Shows vars →
      stmt s st b = .ok (u, b') →
      ∃ vars', Stmt.Allowed functions s.result vars st vars' ∧ b'.Shows vars'
  | .read loc target, b, b', u, vars, hb, h => by
    simp only [stmt, state_bind_ok] at h
    obtain ⟨_, b₁, hline, v, _, hv, _, b₂, hread, hstore⟩ := h
    have hb₁ := (setLine_ok hline).1.shows hb
    obtain ⟨hv', rfl⟩ := lookup_ok hv
    have hb' := (emit_ok hstore).1.shows ((emit_ok hread).1.shows hb₁)
    exact ⟨vars, .read (hb₁.declared hv'), hb'⟩
  | .print loc value, b, b', u, vars, hb, h => by
    simp only [stmt, state_bind_ok, state_lift_ok] at h
    obtain ⟨_, b₁, hline, tv, _, htv, t, _, ⟨ht, rfl⟩, _, b₂, hdiscard, hprint⟩ := h
    have hb₁ := (setLine_ok hline).1.shows hb
    obtain ⟨htv', rfl⟩ := typeOf_ok htv
    obtain ⟨te, he⟩ := state_discard_ok.mp hdiscard
    obtain ⟨htype, hb₂⟩ := expr_hasType hs hb₁ he
    -- the type that was found before is the one that lowering gives
    have hte := (expr_generates he).1
    rw [htv'] at hte
    cases hte
    cases valueType_ok.mp ht
    exact ⟨vars, .print ⟨t, htype⟩, (emit_ok hprint).1.shows hb₂⟩
  | .declare loc name type init, b, b', u, vars, hb, h => by
    simp only [stmt, state_bind_ok] at h
    obtain ⟨_, b₁, hline, h⟩ := h
    exact declare_allowed hs ((setLine_ok hline).1.shows hb) h
  | .assign loc name value, b, b', u, vars, hb, h => by
    simp only [stmt, state_bind_ok] at h
    obtain ⟨_, b₁, hline, v, _, hv, _, b₂, hvalue, hstore⟩ := h
    have hb₁ := (setLine_ok hline).1.shows hb
    obtain ⟨hv', rfl⟩ := lookup_ok hv
    obtain ⟨hhas, hb₂⟩ := exprAs_hasValue hs hb₁ hvalue
    exact ⟨vars, .assign (hb₁.declared hv') hhas, (emit_ok hstore).1.shows hb₂⟩
  | .ret loc value, b, b', u, vars, hb, h => by
    simp only [stmt, state_bind_ok] at h
    obtain ⟨_, b₁, hline, h⟩ := h
    exact ⟨vars, giveBack_allowed hs ((setLine_ok hline).1.shows hb) h⟩
  | .call loc name args, b, b', u, vars, hb, h => by
    simp only [stmt, state_bind_ok] at h
    obtain ⟨_, b₁, hline, t, b₂, he, hdrop⟩ := h
    obtain ⟨htype, hb₂⟩ := expr_hasType hs ((setLine_ok hline).1.shows hb) he
    exact ⟨vars, .call htype, (drop_ok hdrop).1.shows hb₂⟩
  | .assert loc condition, b, b', u, vars, hb, h => by
    simp only [stmt, state_bind_ok] at h
    obtain ⟨_, b₁, hline, ok, b₂, hok, _, b₃, hcond, _, b₄, hjump, _, b₅, hfatal, hmark⟩ := h
    have hb₂ := (freshLabel_ok hok).2.1.shows ((setLine_ok hline).1.shows hb)
    -- whatever the value of the condition is, it can be made a truth value
    obtain ⟨hhas, hb₃⟩ := exprAs_hasValue hs hb₂ hcond
    have hb₅ := (fatal_ok hfatal).1.shows ((emit_ok hjump).1.shows hb₃)
    exact ⟨vars, .assert hhas, (mark_ok hmark).1.shows hb₅⟩
  | .abort loc, b, b', u, vars, hb, h => by
    simp only [stmt, state_bind_ok] at h
    obtain ⟨_, b₁, hline, hfatal⟩ := h
    exact ⟨vars, .abort, (fatal_ok hfatal).1.shows ((setLine_ok hline).1.shows hb)⟩
  | .loop loc body condition, b, b', u, vars, hb, h => by
    simp only [stmt, state_bind_ok] at h
    obtain ⟨_, b₁, hline, start, b₂, hstart, _, b₃, hmark, _, b₄, hbody, _, b₅, hline', _, b₆,
      hcond, hjump⟩ := h
    have hb₂ := (freshLabel_ok hstart).2.1.shows ((setLine_ok hline).1.shows hb)
    obtain ⟨vars', hallowed, hb₄⟩ := stmts_allowed hs body ((mark_ok hmark).1.shows hb₂) hbody
    -- the condition sees what the body has declared
    obtain ⟨hhas, hb₆⟩ := exprAs_hasValue hs ((setLine_ok hline').1.shows hb₄) hcond
    exact ⟨vars', .loop hallowed hhas, (emit_ok hjump).1.shows hb₆⟩
  | .branch loc target arms none, b, b', u, vars, hb, h => by
    simp only [stmt, state_bind_ok] at h
    obtain ⟨_, b₁, hline, v, _, hv, done, b₂, hdone, labels, b₃, htests, _, b₄, hjump, _, b₅,
      hbodies, hmark⟩ := h
    have hb₁ := (setLine_ok hline).1.shows hb
    obtain ⟨hv', rfl⟩ := lookup_ok hv
    have hb₂ := (freshLabel_ok hdone).2.1.shows hb₁
    -- the tests come before all bodies, and see none of what these declare
    obtain ⟨hvalues, hlength, hb₃⟩ := tests_haveValues hs hb₂ htests
    obtain ⟨vars', hallowed, hb₅⟩ :=
      bodies_allowed hs arms ((emit_ok hjump).1.shows hb₃) hlength hbodies
    exact ⟨vars', .branch (hb₁.declared hv') hvalues hallowed .nil,
      (mark_ok hmark).1.shows hb₅⟩
  | .branch loc target arms (some otherwise), b, b', u, vars, hb, h => by
    simp only [stmt, state_bind_ok] at h
    obtain ⟨_, b₁, hline, v, _, hv, done, b₂, hdone, labels, b₃, htests, default, b₄, hdefault,
      _, b₅, hjump, _, b₆, hbodies, _, b₇, hmark, _, b₈, helse, hmark'⟩ := h
    have hb₁ := (setLine_ok hline).1.shows hb
    obtain ⟨hv', rfl⟩ := lookup_ok hv
    have hb₂ := (freshLabel_ok hdone).2.1.shows hb₁
    obtain ⟨hvalues, hlength, hb₃⟩ := tests_haveValues hs hb₂ htests
    have hb₅ := (emit_ok hjump).1.shows ((freshLabel_ok hdefault).2.1.shows hb₃)
    obtain ⟨mid, hallowed, hb₆⟩ := bodies_allowed hs arms hb₅ hlength hbodies
    -- the last body sees what all arms have declared, as if they had run
    obtain ⟨vars', helse', hb₈⟩ := stmts_allowed hs otherwise ((mark_ok hmark).1.shows hb₆) helse
    exact ⟨vars', .branch (hb₁.declared hv') hvalues hallowed helse',
      (mark_ok hmark').1.shows hb₈⟩

/-- Statements in a row: what the first leaves declared is in scope for the others. -/
theorem stmts_allowed (hs : Offers s.functions functions) :
    ∀ (body : List Stmt) {b b' : Body} {u : Unit} {vars : Declarations}, b.Shows vars →
      stmts s body b = .ok (u, b') →
      ∃ vars', Stmt.AllAllowed functions s.result vars body vars' ∧ b'.Shows vars'
  | [], b, b', u, vars, hb, h => by
    simp only [stmts] at h
    obtain ⟨_, rfl⟩ := state_pure_ok.mp h
    exact ⟨vars, .nil, hb⟩
  | first :: rest, b, b', u, vars, hb, h => by
    simp only [stmts, state_bind_ok] at h
    obtain ⟨_, b₁, hfirst, hrest⟩ := h
    obtain ⟨mid, hfirst', hb₁⟩ := stmt_allowed hs first hb hfirst
    obtain ⟨vars', hrest', hb'⟩ := stmts_allowed hs rest hb₁ hrest
    exact ⟨vars', .cons hfirst' hrest', hb'⟩

/-- The bodies of the arms, one after another. What one arm declares stays in scope for the next,
although only one of them runs. -/
theorem bodies_allowed (hs : Offers s.functions functions) :
    ∀ (arms : List BranchArm) {done : Label} {labels : List Label} {b b' : Body} {u : Unit}
      {vars : Declarations}, b.Shows vars → labels.length = arms.length →
      bodies s done arms labels b = .ok (u, b') →
      ∃ vars', BranchArm.AllAllowed functions s.result vars arms vars' ∧ b'.Shows vars'
  | [], done, [], b, b', u, vars, hb, _, h => by
    simp only [bodies] at h
    obtain ⟨_, rfl⟩ := state_pure_ok.mp h
    exact ⟨vars, .nil, hb⟩
  | [], _, _ :: _, b, b', u, vars, hb, hlength, h => by cases hlength
  | _ :: _, _, [], b, b', u, vars, hb, hlength, h => by cases hlength
  | .mk test body :: rest, done, label :: labels, b, b', u, vars, hb, hlength, h => by
    simp only [bodies, state_bind_ok] at h
    obtain ⟨_, b₁, hmark, _, b₂, hbody, _, b₃, hjump, hrest⟩ := h
    obtain ⟨mid, hbody', hb₂⟩ := stmts_allowed hs body ((mark_ok hmark).1.shows hb) hbody
    obtain ⟨vars', hrest', hb'⟩ :=
      bodies_allowed hs rest ((emit_ok hjump).1.shows hb₂) (Nat.succ.inj hlength) hrest
    exact ⟨vars', .cons hbody' hrest', hb'⟩

end

/-! ## Statements that keep the rules

From the rules to success. A step that cannot fail is run (`Body.Shows.runs`), and one that can is
discharged by what the rule says. The states are found one after the other, `hᵢ` being the step that
leads to `bᵢ`, and in the end the chain is put together from them. -/

theorem drop_runs (t : ResultType) (hb : b.Shows vars) :
    ∃ b', drop t b = .ok ((), b') ∧ b'.Shows vars := by
  cases t with
  | none => exact ⟨b, rfl, hb⟩
  | some t => exact hb.runs (emit (.pop t)) rfl rfl

/-- A return is lowered whatever the function gives back, and leaves the scope as it is. -/
theorem giveBack_lowers (hs : Offers s.functions functions) {loc : Location} {value : Option Expr}
    {vars' : Declarations} (h : Stmt.Allowed functions s.result vars (.ret loc value) vars')
    (hb : b.Shows vars) : ∃ b', giveBack s loc value b = .ok ((), b') ∧ b'.Shows vars' := by
  cases h with
  | ret hr h =>
    obtain ⟨t, ht⟩ := Option.ne_none_iff_exists'.mp hr
    simp only [giveBack, ht, state_bind_ok]
    obtain ⟨b₁, h₁, hb₁⟩ := exprAs_lowers hs h t hb
    obtain ⟨b₂, h₂, hb₂⟩ := hb₁.runs (emit (.ret t)) rfl rfl
    exact ⟨b₂, ⟨(), b₁, h₁, h₂⟩, hb₂⟩
  | retEffect hr h =>
    simp only [giveBack, hr, state_bind_ok]
    obtain ⟨b₁, h₁⟩ := expr_lowers hs _ h b hb
    obtain ⟨b₂, h₂, hb₂⟩ := drop_runs _ (expr_hasType hs hb h₁).2
    obtain ⟨b₃, h₃, hb₃⟩ := hb₂.runs (setLine loc.line) rfl rfl
    obtain ⟨b₄, h₄, hb₄⟩ := hb₃.runs (emit .retVoid) rfl rfl
    exact ⟨b₄, ⟨_, b₁, h₁, (), b₂, h₂, (), b₃, h₃, h₄⟩, hb₄⟩
  | retZero =>
    cases hr : s.result with
    | none =>
      simp only [giveBack, hr]
      exact hb.runs (emit .retVoid) rfl rfl
    | some t =>
      simp only [giveBack, hr, state_bind_ok]
      obtain ⟨b₁, h₁, hb₁⟩ := hb.runs (push (.zero t)) rfl rfl
      obtain ⟨b₂, h₂, hb₂⟩ := hb₁.runs (emit (.ret t)) rfl rfl
      exact ⟨b₂, ⟨(), b₁, h₁, h₂⟩, hb₂⟩

/-- A name that is not in scope is bound, gets a slot and the value on top. There has to be a free
number for the slot, which is the only condition that is not about types. -/
theorem store_lowers {name : String} {t : ValueType} (loc : Location)
    (hnew : name ∉ vars.map Prod.fst) (hroom : vars.length < Scope.capacity) (hb : b.Shows vars) :
    ∃ v b₁ slot b₂ b', bindName name (some t) loc b = .ok (v, b₁) ∧
      addSlot t b₁ = .ok (slot, b₂) ∧ emit (.store t slot) b₂ = .ok ((), b') ∧
      b'.Shows (vars ++ [(name, t)]) := by
  obtain ⟨hordered, rfl⟩ := hb
  obtain ⟨v, hnext, hadd, hdecl⟩ := hordered.next hnew t false loc hroom
  have hbound : Body.Shows { scope := b.scope.add v, draft := (b.draft.addSlot t).2 }
      (b.scope.declarations ++ [(name, t)]) := ⟨hadd, hdecl⟩
  obtain ⟨b', hrun, hb'⟩ := hbound.runs (emit (.store t (b.draft.addSlot t).1)) rfl rfl
  exact ⟨v, _, _, _, b', bindName_ok.mpr ⟨hnext, rfl⟩, rfl, hrun, hb'⟩

/-- The name is still free when it is bound, since the value that is lowered before binds
nothing. -/
theorem declare_lowers (hs : Offers s.functions functions) {loc : Location} {name : String}
    {t : ValueType} {init : Option Expr} (hnew : name ∉ vars.map Prod.fst)
    (hinit : ∀ e, init = some e → e.HasValue functions vars)
    (hroom : vars.length < Scope.capacity) (hb : b.Shows vars) :
    ∃ b', declare s loc name (some t) init b = .ok ((), b') ∧
      b'.Shows (vars ++ [(name, t)]) := by
  -- the check for a name that is taken comes first
  have hfresh : ¬ b.scope.contains name = true := by
    rw [hb.ordered.contains_iff.mpr (hb.declarations ▸ hnew)]
    exact Bool.false_ne_true
  cases init with
  | none =>
    obtain ⟨mid, hrun, hmid⟩ := hb.runs (push (.zero t)) rfl rfl
    obtain ⟨v, b₁, slot, b₂, b', hbind, hslot, hstore, hb'⟩ := store_lowers loc hnew hroom hmid
    refine ⟨b', ?_, hb'⟩
    simp only [declare, state_throw_bind, state_bind_ok, state_get_ok, state_guard_ok,
      state_lift_ok, state_discard_ok]
    exact ⟨b, b, ⟨rfl, rfl⟩, hfresh, t, b, ⟨valueType_ok.mpr rfl, rfl⟩, (), mid, hrun, ⟨⟩, b₁,
      ⟨v, hbind⟩, slot, b₂, hslot, hstore⟩
  | some e =>
    obtain ⟨mid, hrun, hmid⟩ := exprAs_lowers hs (hinit e rfl) t hb
    obtain ⟨v, b₁, slot, b₂, b', hbind, hslot, hstore, hb'⟩ := store_lowers loc hnew hroom hmid
    refine ⟨b', ?_, hb'⟩
    simp only [declare, state_throw_bind, state_bind_ok, state_get_ok, state_guard_ok,
      state_lift_ok, state_discard_ok]
    exact ⟨b, b, ⟨rfl, rfl⟩, hfresh, t, b, ⟨valueType_ok.mpr rfl, rfl⟩, (), mid, hrun, ⟨⟩, b₁,
      ⟨v, hbind⟩, slot, b₂, hslot, hstore⟩

/-- Each test is lowered in its turn, with the same variables in scope. -/
theorem tests_lower (hs : Offers s.functions functions) (target : Variable) (loc : Location) :
    ∀ (arms : List BranchArm) {b : Body},
      (∀ arm ∈ arms, arm.test.value.HasValue functions vars) → b.Shows vars →
      ∃ labels b', tests s target loc arms b = .ok (labels, b')
  | [], b, _, _ => ⟨[], b, rfl⟩
  | .mk test body :: rest, b, h, hb => by
    obtain ⟨a, ha⟩ := h _ List.mem_cons_self
    simp only [BranchArm.test] at ha
    obtain ⟨b₁, h₁, hb₁⟩ := hb.runs (emit (.load target.type target.slot)) rfl rfl
    obtain ⟨b₂, h₂, hb₂⟩ := cast_eq target.type (commonType target.type a) loc hb₁
    obtain ⟨b₃, h₃, hb₃⟩ := exprAs_lowers hs ⟨a, ha⟩ (commonType target.type a) hb₂
    obtain ⟨b₄, h₄, hb₄⟩ := hb₃.runs (emit (.compare (commonType target.type a))) rfl rfl
    obtain ⟨b₅, h₅, hb₅⟩ := hb₄.runs freshLabel rfl rfl
    obtain ⟨b₆, h₆, hb₆⟩ := hb₅.runs (emit (.jumpIf test.relation _)) rfl rfl
    obtain ⟨labels, b₇, h₇⟩ :=
      tests_lower hs target loc rest (fun arm harm => h arm (List.mem_cons_of_mem _ harm)) hb₆
    rw [← promote_some] at h₂ h₃
    simp only [tests, state_bind_ok, state_lift_ok]
    exact ⟨_, b₇, some a, b, typeOf_eq hs hb ha, _, b, ⟨valueType_ok.mpr (promote_some _ a), rfl⟩,
      (), b₁, h₁, (), b₂, h₂, (), b₃, h₃, (), b₄, h₄, _, b₅, h₅, (), b₆, h₆, labels, b₇, h₇, rfl⟩

mutual

-- The steps of the generator are put together in the order in which it takes them. There is room
-- for the names of a statement because there is room for all those of the body.
/-- A statement that keeps the rules is lowered, and the scope shows what it leaves declared. -/
theorem stmt_lowers (hs : Offers s.functions functions) :
    ∀ (st : Stmt) {b : Body} {vars vars' : Declarations},
      Stmt.Allowed functions s.result vars st vars' → vars'.length ≤ Scope.capacity →
      b.Shows vars → ∃ b', stmt s st b = .ok ((), b') ∧ b'.Shows vars'
  | .read loc target, b, vars, _, .read h, _, hb => by
    obtain ⟨b₁, h₁, hb₁⟩ := hb.runs (setLine loc.line) rfl rfl
    obtain ⟨v, hv, -⟩ := hb₁.find h
    obtain ⟨b₂, h₂, hb₂⟩ := hb₁.runs (emit (.read v.type)) rfl rfl
    obtain ⟨b₃, h₃, hb₃⟩ := hb₂.runs (emit (.store v.type v.slot)) rfl rfl
    simp only [stmt, state_bind_ok]
    exact ⟨b₃, ⟨(), b₁, h₁, v, b₁, lookup_eq hv, (), b₂, h₂, h₃⟩, hb₃⟩
  | .print loc value, b, vars, _, .print ⟨t, ht⟩, _, hb => by
    obtain ⟨b₁, h₁, hb₁⟩ := hb.runs (setLine loc.line) rfl rfl
    obtain ⟨b₂, h₂⟩ := expr_lowers hs value ht b₁ hb₁
    obtain ⟨b₃, h₃, hb₃⟩ := (expr_hasType hs hb₁ h₂).2.runs (emit (.print t)) rfl rfl
    simp only [stmt, state_bind_ok, state_lift_ok]
    exact ⟨b₃, ⟨(), b₁, h₁, _, b₁, typeOf_eq hs hb₁ ht, t, b₁, ⟨valueType_ok.mpr rfl, rfl⟩, ⟨⟩, b₂,
      state_discard_ok.mpr ⟨_, h₂⟩, h₃⟩, hb₃⟩
  | .declare loc name _ init, b, vars, _, .declare hnew hinit, hroom, hb => by
    obtain ⟨b₁, h₁, hb₁⟩ := hb.runs (setLine loc.line) rfl rfl
    -- the new name is one of those that there is room for
    rw [List.length_append, List.length_singleton] at hroom
    obtain ⟨b₂, h₂, hb₂⟩ := declare_lowers hs hnew hinit hroom hb₁
    simp only [stmt, state_bind_ok]
    exact ⟨b₂, ⟨(), b₁, h₁, h₂⟩, hb₂⟩
  | .assign loc name value, b, vars, _, .assign h hvalue, _, hb => by
    obtain ⟨b₁, h₁, hb₁⟩ := hb.runs (setLine loc.line) rfl rfl
    obtain ⟨v, hv, -⟩ := hb₁.find h
    obtain ⟨b₂, h₂, hb₂⟩ := exprAs_lowers hs hvalue v.type hb₁
    obtain ⟨b₃, h₃, hb₃⟩ := hb₂.runs (emit (.store v.type v.slot)) rfl rfl
    simp only [stmt, state_bind_ok]
    exact ⟨b₃, ⟨(), b₁, h₁, v, b₁, lookup_eq hv, (), b₂, h₂, h₃⟩, hb₃⟩
  | .ret loc value, b, vars, _, h, _, hb => by
    obtain ⟨b₁, h₁, hb₁⟩ := hb.runs (setLine loc.line) rfl rfl
    obtain ⟨b₂, h₂, hb₂⟩ := giveBack_lowers hs h hb₁
    simp only [stmt, state_bind_ok]
    exact ⟨b₂, ⟨(), b₁, h₁, h₂⟩, hb₂⟩
  | .call loc name args, b, vars, _, .call h, _, hb => by
    obtain ⟨b₁, h₁, hb₁⟩ := hb.runs (setLine loc.line) rfl rfl
    obtain ⟨b₂, h₂⟩ := expr_lowers hs _ h b₁ hb₁
    obtain ⟨b₃, h₃, hb₃⟩ := drop_runs _ (expr_hasType hs hb₁ h₂).2
    simp only [stmt, state_bind_ok]
    exact ⟨b₃, ⟨(), b₁, h₁, _, b₂, h₂, h₃⟩, hb₃⟩
  | .assert loc condition, b, vars, _, .assert h, _, hb => by
    obtain ⟨b₁, h₁, hb₁⟩ := hb.runs (setLine loc.line) rfl rfl
    obtain ⟨b₂, h₂, hb₂⟩ := hb₁.runs freshLabel rfl rfl
    obtain ⟨b₃, h₃, hb₃⟩ := exprAs_lowers hs h .bool hb₂
    obtain ⟨b₄, h₄, hb₄⟩ := hb₃.runs (emit (.jumpIfTrue _)) rfl rfl
    obtain ⟨b₅, h₅, hb₅⟩ := hb₄.runs (fatal s!"Assertion failed at {loc.text}") rfl rfl
    obtain ⟨b₆, h₆, hb₆⟩ := hb₅.runs (mark _) rfl rfl
    simp only [stmt, state_bind_ok]
    exact ⟨b₆, ⟨(), b₁, h₁, _, b₂, h₂, (), b₃, h₃, (), b₄, h₄, (), b₅, h₅, h₆⟩, hb₆⟩
  | .abort loc, b, vars, _, .abort, _, hb => by
    obtain ⟨b₁, h₁, hb₁⟩ := hb.runs (setLine loc.line) rfl rfl
    obtain ⟨b₂, h₂, hb₂⟩ := hb₁.runs (fatal s!"Program aborted at {loc.text}") rfl rfl
    simp only [stmt, state_bind_ok]
    exact ⟨b₂, ⟨(), b₁, h₁, h₂⟩, hb₂⟩
  | .loop loc body condition, b, vars, _, .loop hbody h, hroom, hb => by
    obtain ⟨b₁, h₁, hb₁⟩ := hb.runs (setLine loc.line) rfl rfl
    obtain ⟨b₂, h₂, hb₂⟩ := hb₁.runs freshLabel rfl rfl
    obtain ⟨b₃, h₃, hb₃⟩ := hb₂.runs (mark _) rfl rfl
    obtain ⟨b₄, h₄, hb₄⟩ := stmts_lower hs body hbody hroom hb₃
    obtain ⟨b₅, h₅, hb₅⟩ := hb₄.runs (setLine loc.line) rfl rfl
    obtain ⟨b₆, h₆, hb₆⟩ := exprAs_lowers hs h .bool hb₅
    obtain ⟨b₇, h₇, hb₇⟩ := hb₆.runs (emit (.jumpIfTrue _)) rfl rfl
    simp only [stmt, state_bind_ok]
    exact ⟨b₇, ⟨(), b₁, h₁, _, b₂, h₂, (), b₃, h₃, (), b₄, h₄, (), b₅, h₅, (), b₆, h₆, h₇⟩, hb₇⟩
  | .branch loc target arms none, b, vars, _, .branch h htests hbodies .nil, hroom, hb => by
    obtain ⟨b₁, h₁, hb₁⟩ := hb.runs (setLine loc.line) rfl rfl
    obtain ⟨v, hv, -⟩ := hb₁.find h
    obtain ⟨b₂, h₂, hb₂⟩ := hb₁.runs freshLabel rfl rfl
    obtain ⟨labels, b₃, h₃⟩ := tests_lower hs v loc arms htests hb₂
    obtain ⟨-, hlength, hb₃⟩ := tests_haveValues hs hb₂ h₃
    obtain ⟨b₄, h₄, hb₄⟩ := hb₃.runs (emit (.jump _)) rfl rfl
    obtain ⟨b₅, h₅, hb₅⟩ := bodies_lower hs _ arms hbodies hroom hlength hb₄
    obtain ⟨b₆, h₆, hb₆⟩ := hb₅.runs (mark _) rfl rfl
    simp only [stmt, state_bind_ok]
    exact ⟨b₆, ⟨(), b₁, h₁, v, b₁, lookup_eq hv, _, b₂, h₂, labels, b₃, h₃, (), b₄, h₄, (), b₅, h₅,
      h₆⟩, hb₆⟩
  | .branch loc target arms (some otherwise), b, vars, _, .branch h htests hbodies helse, hroom,
      hb => by
    obtain ⟨b₁, h₁, hb₁⟩ := hb.runs (setLine loc.line) rfl rfl
    obtain ⟨v, hv, -⟩ := hb₁.find h
    obtain ⟨b₂, h₂, hb₂⟩ := hb₁.runs freshLabel rfl rfl
    obtain ⟨labels, b₃, h₃⟩ := tests_lower hs v loc arms htests hb₂
    obtain ⟨-, hlength, hb₃⟩ := tests_haveValues hs hb₂ h₃
    obtain ⟨b₄, h₄, hb₄⟩ := hb₃.runs freshLabel rfl rfl
    obtain ⟨b₅, h₅, hb₅⟩ := hb₄.runs (emit (.jump _)) rfl rfl
    obtain ⟨b₆, h₆, hb₆⟩ :=
      bodies_lower hs _ arms hbodies (Nat.le_trans helse.length_le hroom) hlength hb₅
    obtain ⟨b₇, h₇, hb₇⟩ := hb₆.runs (mark _) rfl rfl
    obtain ⟨b₈, h₈, hb₈⟩ := stmts_lower hs otherwise helse hroom hb₇
    obtain ⟨b₉, h₉, hb₉⟩ := hb₈.runs (mark _) rfl rfl
    simp only [stmt, state_bind_ok]
    exact ⟨b₉, ⟨(), b₁, h₁, v, b₁, lookup_eq hv, _, b₂, h₂, labels, b₃, h₃, _, b₄, h₄, (), b₅, h₅,
      (), b₆, h₆, (), b₇, h₇, (), b₈, h₈, h₉⟩, hb₉⟩

/-- Each statement needs room for its own names only, and gets it: what is in scope behind the first
is part of what is in scope behind the last. -/
theorem stmts_lower (hs : Offers s.functions functions) :
    ∀ (body : List Stmt) {b : Body} {vars vars' : Declarations},
      Stmt.AllAllowed functions s.result vars body vars' → vars'.length ≤ Scope.capacity →
      b.Shows vars → ∃ b', stmts s body b = .ok ((), b') ∧ b'.Shows vars'
  | [], b, _, _, .nil, _, hb => ⟨b, rfl, hb⟩
  | first :: rest, b, _, _, .cons hfirst hrest, hroom, hb => by
    obtain ⟨b₁, h₁, hb₁⟩ := stmt_lowers hs first hfirst (Nat.le_trans hrest.length_le hroom) hb
    obtain ⟨b₂, h₂, hb₂⟩ := stmts_lower hs rest hrest hroom hb₁
    simp only [stmts, state_bind_ok]
    exact ⟨b₂, ⟨(), b₁, h₁, h₂⟩, hb₂⟩

/-- Likewise for the bodies of the arms, which have as many labels. -/
theorem bodies_lower (hs : Offers s.functions functions) (done : Label) :
    ∀ (arms : List BranchArm) {labels : List Label} {b : Body} {vars vars' : Declarations},
      BranchArm.AllAllowed functions s.result vars arms vars' →
      vars'.length ≤ Scope.capacity → labels.length = arms.length → b.Shows vars →
      ∃ b', bodies s done arms labels b = .ok ((), b') ∧ b'.Shows vars'
  | [], [], b, _, _, .nil, _, _, hb => ⟨b, rfl, hb⟩
  | [], _ :: _, _, _, _, _, _, hlength, _ => by cases hlength
  | _ :: _, [], _, _, _, _, _, hlength, _ => by cases hlength
  | .mk test body :: rest, label :: labels, b, _, _, .cons hbody hrest, hroom, hlength, hb => by
    obtain ⟨b₁, h₁, hb₁⟩ := hb.runs (mark label) rfl rfl
    obtain ⟨b₂, h₂, hb₂⟩ := stmts_lower hs body hbody (Nat.le_trans hrest.length_le hroom) hb₁
    obtain ⟨b₃, h₃, hb₃⟩ := hb₂.runs (emit (.jump done)) rfl rfl
    obtain ⟨b₄, h₄, hb₄⟩ := bodies_lower hs done rest hrest hroom (Nat.succ.inj hlength) hb₃
    simp only [bodies, state_bind_ok]
    exact ⟨b₄, ⟨(), b₁, h₁, (), b₂, h₂, (), b₃, h₃, h₄⟩, hb₄⟩

end

end Lowering

/-! ## Functions

The parameters are the first declarations, and the statements go on from there. -/

theorem filterMap_paramOf (ds : Declarations) :
    (ds.map paramOf).filterMap Param.declaration? = ds := by
  induction ds with
  | nil => rfl
  | cons d ds ih => simpa [Param.declaration?, paramOf] using ih

theorem lowerBody_typed {fs : FunctionTable} {name : String} {params : List Param}
    {result : ResultType} {body : List Stmt} {loc : Location} {blk : Assembly.Block}
    (h : lowerBody fs name params result body loc = .ok blk) : ∀ p ∈ params, p.type ≠ none := by
  simp only [lowerBody, except_bind_ok] at h
  obtain ⟨scope, hscope, -⟩ := h
  obtain ⟨-, hparams⟩ := Scope.ofParams_ok hscope
  intro p hp
  rw [hparams] at hp
  obtain ⟨d, -, rfl⟩ := List.mem_map.mp hp
  simp [paramOf]

/-- **A function is lowered exactly if its body keeps the rules.** The return behind the statements
needs nothing of its own: a function without a value to give back gives back zero. -/
theorem lowerBody_iff {fs : FunctionTable} {functions : List Function} (hs : Offers fs functions)
    (name : String) (params : List Param) (result : ResultType) (body : List Stmt)
    (loc : Location) :
    (∃ blk, lowerBody fs name params result body loc = .ok blk) ↔
      BodyAllowed functions params result body := by
  constructor
  · rintro ⟨blk, h⟩
    have htyped := lowerBody_typed h
    simp only [lowerBody, except_bind_ok, except_pure_ok, state_bind_ok] at h
    obtain ⟨scope, hscope, types, -, ⟨_, b'⟩, ⟨_, b, hbody, -⟩, -⟩ := h
    -- the parameters are the declarations that the statements begin with
    obtain ⟨hordered, hparams⟩ := Scope.ofParams_ok hscope
    have hinputs : params.filterMap Param.declaration? = scope.declarations := by
      rw [hparams, filterMap_paramOf]
    obtain ⟨vars, hallowed, hb⟩ := Lowering.stmts_allowed hs body ⟨hordered, rfl⟩ hbody
    refine ⟨?_, htyped, vars, hinputs ▸ hallowed, ?_⟩
    · rw [hparams, List.map_map]
      exact hordered.nodup
    · rw [← hb.declarations]
      simpa [Scope.declarations] using hb.ordered.size_le
  · rintro ⟨hdistinct, htyped, vars, hallowed, hroom⟩
    -- parameters that have values are determined by their declarations, which stand for them from
    -- here on
    have hparams := params_eq htyped
    generalize params.filterMap Param.declaration? = inputs at hparams hallowed
    subst hparams
    rw [List.map_map] at hdistinct
    obtain ⟨scope, hbound, hordered, hdecl⟩ := Scope.bindParams_eq loc inputs Scope.ordered_empty
      hdistinct (Nat.le_trans hallowed.length_le hroom)
    have hscope := Scope.ofParams_ok_iff.mpr hbound
    obtain ⟨types, htypes⟩ := params_types htyped
    have hvalues : (inputs.map paramOf).mapM (fun p => valueType p.type loc) = .ok types := by
      have hmap : ((inputs.map paramOf).map (·.type)).mapM (valueType · loc) = .ok types :=
        valueTypes_ok.mpr htypes
      rw [List.mapM_map] at hmap
      exact hmap
    have hstart : Body.Shows
        { scope, draft := (Draft.start name ⟨types, result⟩).setLine loc.line } inputs :=
      ⟨hordered, hdecl⟩
    obtain ⟨b₁, h₁, hb₁⟩ := Lowering.stmts_lower (s := ⟨fs, result⟩) hs body hallowed hroom hstart
    -- the return behind the statements
    have hzero : Stmt.Allowed functions result vars (.ret loc none) vars := .retZero
    obtain ⟨b₂, h₂, -⟩ := Lowering.giveBack_lowers (s := ⟨fs, result⟩) hs hzero hb₁
    simp only [lowerBody, except_bind_ok, except_pure_ok, state_bind_ok]
    exact ⟨_, scope, hscope, types, hvalues, ((), b₂), ⟨(), b₁, h₁, h₂⟩, rfl⟩

/-! ## Modules

The table of functions has to be made before any function is lowered, because a function may call
one that comes later. -/

theorem isReservedName_eq_false {name : String} :
    isReservedName name = false ↔ name ∉ [startName, mainName, initName] := by
  simp [isReservedName, and_assoc]

theorem addFunction_eq {table : FunctionTable} {f : Function}
    (hfree : isReservedName f.name = false) (hnew : table.contains f.name = false) :
    addFunction table f = .ok (table.insert f.name (.ofFunction f)) := by
  simp [addFunction, hfree, FunctionTable.add?, hnew]

/-- Functions with distinct names that are not reserved are all added. -/
theorem Lists.fold_eq {rest done : List Function} {sofar : FunctionTable} (h : Lists sofar done)
    (hdistinct : ((done ++ rest).map (·.name)).Nodup)
    (hfree : ∀ f ∈ rest, isReservedName f.name = false) :
    ∃ table, rest.foldlM addFunction sofar = .ok table := by
  induction rest generalizing done sofar with
  | nil => exact ⟨sofar, rfl⟩
  | cons f rest ih =>
    have hf := hfree f List.mem_cons_self
    have hnew : sofar.contains f.name = false := by
      cases hfound : sofar[f.name]? with
      | none => rw [Std.HashMap.contains_eq_isSome_getElem?, hfound]; rfl
      | some sig =>
        obtain ⟨g, hg, hname, -⟩ := h.entry.mp hfound
        rw [List.map_append, List.nodup_append] at hdistinct
        exact absurd hname (hdistinct.2.2 g.name (List.mem_map_of_mem hg) f.name (by simp))
    rw [List.append_cons] at hdistinct
    obtain ⟨table, htable⟩ :=
      ih (h.insert hf hnew) hdistinct fun g hg => hfree g (List.mem_cons_of_mem _ hg)
    exact ⟨table, except_bind_ok.mpr ⟨_, addFunction_eq hf hnew, htable⟩⟩

/-- The table can be made if the names are distinct and none of them is reserved. Functions are
added in their order, and the first that cannot be added is the one that is reported; but whether
there is one does not depend on the order. -/
theorem functionTable_iff {functions : List Function} :
    (∃ fs, functionTable functions = .ok fs) ↔ (functions.map (·.name)).Nodup ∧
      ∀ f ∈ functions, f.name ∉ [startName, mainName, initName] := by
  simp only [← isReservedName_eq_false]
  constructor
  · rintro ⟨fs, h⟩
    have hlists := functionTable_ok h
    exact ⟨hlists.names, hlists.free⟩
  · rintro ⟨hdistinct, hfree⟩
    exact Lists.empty.fold_eq hdistinct hfree

/-- A module without an entry has nothing to lower there. Of the blocks of an entry only its body
can be refused. -/
theorem entryBlocks_iff {fs : FunctionTable} {entry : Option Entry} :
    (∃ blocks, entryBlocks fs entry = .ok blocks) ↔
      ∀ e, entry = some e → ∃ blk, lowerEntry fs e = .ok blk := by
  cases entry with
  | none => simp [entryBlocks, pure, Except.pure]
  | some e =>
    simp only [entryBlocks, except_bind_ok, except_pure_ok, Option.some.injEq, forall_eq']
    constructor
    · rintro ⟨_, main, hmain, -⟩
      exact ⟨main, hmain⟩
    · rintro ⟨main, hmain⟩
      exact ⟨_, main, hmain, rfl⟩

/-- A module is lowered part by part: the name of its artifact is checked, the table of functions is
made, and then each function and the entry are lowered. All of these are lowered with the same
table, so that none of them depends on the outcome of another. -/
theorem lowerModule_iff {options : Options} {m : Module} :
    (∃ p, lowerModule options m = .ok p) ↔
      Text.isIdentifier (options.artifactName.getD m.name) = true ∧
      ∃ fs, functionTable m.functions = .ok fs ∧
        (∀ f ∈ m.functions, ∃ blk, lowerFunction fs f = .ok blk) ∧
        ∀ e, m.entry = some e → ∃ blk, lowerEntry fs e = .ok blk := by
  by_cases hname : Text.isIdentifier (options.artifactName.getD m.name) = true
  case neg => simp [lowerModule, except_throw_bind, except_throw_ok, hname]
  simp only [lowerModule, hname, if_true, except_bind_ok, except_pure_ok, ← entryBlocks_iff,
    ← except_mapM_exists, true_and]
  constructor
  · rintro ⟨_, fs, hfs, blocks, hblocks, entry, hentry, -⟩
    exact ⟨fs, hfs, ⟨blocks, hblocks⟩, entry, hentry⟩
  · rintro ⟨fs, hfs, ⟨blocks, hblocks⟩, entry, hentry⟩
    exact ⟨_, fs, hfs, blocks, hblocks, entry, hentry, rfl⟩

/-- **Lowering accepts exactly the modules that keep the rules**, whatever the options. The rules
are about names, types and the number of variables, and can be read without any knowledge of code.
So whether a module is accepted does not depend on what code is generated for it. -/
theorem lowering_accepts_well_formed (options : Options) (m : Module) :
    (∃ p, lowerModule options m = .ok p) ↔ m.WellFormed options := by
  rw [lowerModule_iff]
  constructor
  · rintro ⟨hname, fs, hfs, hfunctions, hentry⟩
    obtain ⟨hdistinct, hfree⟩ := functionTable_iff.mp ⟨fs, hfs⟩
    -- every function is lowered, so the parameters of every callee have values
    have hs : Offers fs m.functions := by
      refine ⟨functionTable_ok hfs, fun f hf => ?_⟩
      obtain ⟨blk, hblk⟩ := hfunctions f hf
      exact lowerBody_typed hblk
    exact ⟨hname, hdistinct, hfree, fun f hf => (lowerBody_iff hs _ _ _ _ _).mp (hfunctions f hf),
      fun e he => (lowerBody_iff hs _ _ _ _ _).mp (hentry e he)⟩
  · intro h
    obtain ⟨fs, hfs⟩ := functionTable_iff.mpr ⟨h.distinct, h.free⟩
    -- that parameters have values is one of the rules
    have hs : Offers fs m.functions := ⟨functionTable_ok hfs, fun f hf => (h.functions f hf).typed⟩
    exact ⟨h.name, fs, hfs, fun f hf => (lowerBody_iff hs _ _ _ _ _).mpr (h.functions f hf),
      fun e he => (lowerBody_iff hs _ _ _ _ _).mpr (h.entry e he)⟩

end TypedStack.Compile
