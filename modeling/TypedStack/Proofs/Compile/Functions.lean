import TypedStack.Proofs.Compile.Expressions
/-!
# What lowering a function generates

The code of a statement stands in the relation `Compile.StmtCode` to the tree, and the variables
that the tree declares are bound in the order of their declarations (`Lowering.stmt_generates`).
`lowerBody_code` puts together what is known of the block of a function.

Statements declare variables, so unlike expressions they change the scope. The code of a statement
is described with the scope at its end or any later one. This does no harm to what was said before
the change, since a variable that is in scope keeps its slot.
-/

set_option autoImplicit false

namespace TypedStack.Compile

open Assembly Evaluation

/-! ## Functions

The block of a function, from an empty draft to the return that is written behind the statements. -/

/-- The slots of a function being compiled are those of its variables, in the same order. -/
structure Body.Consistent (b : Body) : Prop where
  ordered : b.scope.Ordered
  slots : b.draft.block.slots.toList = b.scope.bound.toList.map Variable.type

/-- Code was appended and variables were declared. What was in scope before still is, with the same
slots and types (`keeps`), and the slots are still those of the variables. -/
structure Body.Grows (b : Body) (code : List Instr) (declared : List (String × ValueType))
    (b' : Body) : Prop where
  name : b'.draft.block.name = b.draft.block.name
  signature : b'.draft.block.signature = b.draft.block.signature
  instrs : b'.draft.block.instrs.toList = b.draft.block.instrs.toList ++ code
  declarations : b'.scope.declarations = b.scope.declarations ++ declared
  keeps : ∀ {name : String} {v : Variable},
    b.scope.find? name = some v → b'.scope.find? name = some v
  consistent : b'.Consistent

namespace Body

variable {b b' b'' : Body} {code code' : List Instr} {ds ds' : List (String × ValueType)}

theorem Appends.grows (h : b.Appends code b') (hb : b.Consistent) : b.Grows code [] b' where
  name := h.name
  signature := h.signature
  instrs := h.instrs
  declarations := by rw [h.scope, List.append_nil]
  keeps hv := by rw [h.scope]; exact hv
  consistent := ⟨h.scope ▸ hb.ordered, by rw [h.slots, h.scope, hb.slots]⟩

theorem Grows.trans (h : b.Grows code ds b') (h' : b'.Grows code' ds' b'') :
    b.Grows (code ++ code') (ds ++ ds') b'' where
  name := h'.name.trans h.name
  signature := h'.signature.trans h.signature
  instrs := by rw [h'.instrs, h.instrs, List.append_assoc]
  declarations := by rw [h'.declarations, h.declarations, List.append_assoc]
  keeps hv := h'.keeps (h.keeps hv)
  consistent := h'.consistent

theorem Grows.of_eq (h : b.Grows code ds b') (hcode : code = code') (hds : ds = ds') :
    b.Grows code' ds' b' :=
  hcode ▸ hds ▸ h

/-- Variables that include a later scope include the earlier one. -/
theorem Grows.within (h : b.Grows code ds b') {vars : Variables} (hvars : b'.scope.Within vars) :
    b.scope.Within vars :=
  fun hv => hvars (h.keeps hv)

end Body

/-! ## Statements

Each operation of the generator that stands for a statement, from a successful run to the code that
it has appended. The generator is a sequence of steps, and so are the proofs: the steps are numbered
in their order, `aᵢ` says what the code is that a step appends and `lᵢ` how many labels have been
handed out behind it. -/

namespace Lowering

variable {s : Surroundings} {b b' : Body}

/-- The code of an expression, whatever variables come into reach later. -/
theorem expr_generates {e : Expr} {t : ResultType} (h : expr s e b = .ok (t, b')) :
    Compile.typeOf s.functions b.scope e = .ok t ∧ ∃ code, b.Appends code b' ∧
      ∀ {vars : Variables}, b.scope.Within vars →
        ExprCode s.functions vars e b.labels code t b'.labels := by
  -- the scope itself is the least set of variables, and a larger one changes nothing
  have hexpr : Generates s (fun name => b.scope.find? name) e := expr_code e
  obtain ⟨htype, code, hcode, hgen⟩ := hexpr _ _ _ h id
  exact ⟨htype, code, hcode, fun hvars => hgen.mono hvars⟩

/-- The value of an expression is converted to the type that is asked for, which has to be that of a
value. -/
theorem exprAs_generates {e : Expr} {target : ResultType} {u : Unit}
    (h : exprAs s e target b = .ok (u, b')) :
    ∃ a t code, target = some t ∧ Compile.typeOf s.functions b.scope e = .ok (some a) ∧
      b.Appends (code ++ castCode a t) b' ∧ ∀ {vars : Variables}, b.scope.Within vars →
        ExprCode s.functions vars e b.labels code (some a) b'.labels := by
  simp only [exprAs, state_bind_ok] at h
  obtain ⟨te, b₁, he, hc⟩ := h
  obtain ⟨htype, code, hcode, hgen⟩ := expr_generates he
  obtain ⟨a, t, rfl, ht, hconv, hlabels⟩ := cast_ok hc
  exact ⟨a, t, code, ht, htype, hcode.trans hconv, fun hvars => hlabels ▸ hgen hvars⟩

/-- A return is of one of four kinds: with a value or without, in a function with a result or
without. Without a value the zero value is given back, or nothing. -/
theorem giveBack_generates {loc : Location} {value : Option Expr} {u : Unit}
    (h : giveBack s loc value b = .ok (u, b')) :
    ∃ code, b.Appends code b' ∧ ∀ {vars : Variables}, b.scope.Within vars →
      StmtCode s.functions vars s.result (.ret loc value) b.labels code b'.labels := by
  cases value with
  | none =>
    cases hr : s.result with
    | none =>
      simp only [giveBack, hr] at h
      obtain ⟨ha, hl⟩ := emit_ok h
      exact ⟨_, ha, fun _ => hl ▸ .retZero⟩
    | some t =>
      simp only [giveBack, hr, state_bind_ok] at h
      obtain ⟨_, b₁, hpush, hemit⟩ := h
      obtain ⟨ha, hl⟩ := push_ok hpush
      obtain ⟨ha', hl'⟩ := emit_ok hemit
      exact ⟨_, ha.trans ha', fun _ => (hl'.trans hl) ▸ .retZero⟩
  | some e =>
    cases hr : s.result with
    | none =>
      simp only [giveBack, hr, state_bind_ok] at h
      obtain ⟨te, b₁, he, _, b₂, hdrop, _, b₃, hline, hemit⟩ := h
      obtain ⟨_, code, hcode, hgen⟩ := expr_generates he
      obtain ⟨ha, hl⟩ := drop_ok hdrop
      obtain ⟨ha', hl'⟩ := setLine_ok hline
      obtain ⟨ha'', hl''⟩ := emit_ok hemit
      refine ⟨_, (hcode.trans ha).trans (ha'.trans ha''), fun hvars => ?_⟩
      rw [hl'', hl', hl]
      exact .retEffect rfl (hgen hvars)
    | some t =>
      simp only [giveBack, hr, state_bind_ok] at h
      obtain ⟨_, b₁, he, hemit⟩ := h
      obtain ⟨a, t', code, ht, _, hcode, hgen⟩ := exprAs_generates he
      cases ht
      obtain ⟨ha, hl⟩ := emit_ok hemit
      exact ⟨_, hcode.trans ha, fun hvars => hl ▸ .ret rfl (hgen hvars)⟩

/-- A variable is declared in the scope, and then the block gets a slot for it. The two count alike,
so that the slot has the number of the variable. -/
theorem bindName_addSlot (hb : b.Consistent) {name : String} {type : ResultType} {loc : Location}
    {v : Variable} {t : ValueType} {slot : UInt16} {mid : Body} (ht : type = some t)
    (hbind : bindName name type loc b = .ok (v, mid)) (hslot : addSlot t mid = .ok (slot, b')) :
    t = v.type ∧ slot = v.slot ∧ b.Grows [] [(name, v.type)] b' ∧
      b'.scope.find? name = some v ∧ b'.labels = b.labels := by
  obtain ⟨hnext, rfl⟩ := bindName_ok.mp hbind
  obtain ⟨rfl, rfl⟩ := addSlot_ok.mp hslot
  obtain ⟨hnew, hroom, rfl, htype, hnumber, -⟩ := Scope.next_ok hnext
  rw [ht] at htype
  cases htype
  have hlength : b.draft.block.slots.size = b.scope.bound.size := by
    rw [← Array.length_toList, hb.slots, List.length_map, Array.length_toList]
  refine ⟨rfl, ?_, ⟨rfl, rfl, ?_, ?_, ?_, ?_, ?_⟩, Scope.find?_add _ v, rfl⟩
  · rw [hnumber, ← hlength]
    rfl
  · simp [Draft.addSlot]
  · simp [Variable.declaration]
  · exact fun hw => Scope.find?_add_of_find? hnew hw
  · exact hb.ordered.add hnew hroom hnumber
  · simp [Draft.addSlot, Scope.add, hb.slots]

/-- A new variable gets the next slot, and the value on top goes there. -/
theorem store_new (hb : b.Consistent) {name : String} {type : ResultType} {loc : Location}
    {v : Variable} {t : ValueType} {slot : UInt16} {b₁ b₂ : Body} {u : Unit} (ht : type = some t)
    (hbind : bindName name type loc b = .ok (v, b₁)) (hslot : addSlot t b₁ = .ok (slot, b₂))
    (hemit : emit (.store t slot) b₂ = .ok (u, b')) :
    t = v.type ∧ b.Grows [.op (.store v.type v.slot)] [(name, v.type)] b' ∧
      b'.scope.find? name = some v ∧ b'.labels = b.labels := by
  obtain ⟨rfl, rfl, hgrows, hv, hl⟩ := bindName_addSlot hb ht hbind hslot
  obtain ⟨ha, hl'⟩ := emit_ok hemit
  refine ⟨rfl, hgrows.trans (ha.grows hgrows.consistent), ?_, hl'.trans hl⟩
  rw [ha.scope]
  exact hv

/-- A declaration stores into the slot that it adds. Its value is computed before the name is in
scope, so the value may not refer to the variable itself. -/
theorem declare_generates {loc : Location} {name : String} {type : ResultType}
    {init : Option Expr} {u : Unit} (h : declare s loc name type init b = .ok (u, b'))
    (hb : b.Consistent) :
    ∃ code, b.Grows code (Stmt.declare loc name type init).declared b' ∧
      ∀ {vars : Variables}, b'.scope.Within vars →
        StmtCode s.functions vars s.result (.declare loc name type init) b.labels code
          b'.labels := by
  cases init with
  | none =>
    simp only [declare, state_throw_bind, state_bind_ok, state_get_ok, state_guard_ok,
      state_lift_ok, state_discard_ok] at h
    obtain ⟨_, _, ⟨rfl, rfl⟩, _, t, _, ⟨ht, rfl⟩, _, b₁, hpush, _, b₂, ⟨v, hbind⟩, slot, b₃, hslot,
      hemit⟩ := h
    obtain ⟨ha, hl⟩ := push_ok hpush
    have hgrows := ha.grows hb
    obtain ⟨rfl, hgrows', hv, hl'⟩ :=
      store_new hgrows.consistent (valueType_ok.mp ht) hbind hslot hemit
    rw [valueType_ok.mp ht]
    refine ⟨_, hgrows.trans hgrows', fun hvars => ?_⟩
    rw [hl', hl]
    exact .declareZero (hvars hv)
  | some e =>
    simp only [declare, state_throw_bind, state_bind_ok, state_get_ok, state_guard_ok,
      state_lift_ok, state_discard_ok] at h
    obtain ⟨_, _, ⟨rfl, rfl⟩, _, t, _, ⟨ht, rfl⟩, _, b₁, he, _, b₂, ⟨v, hbind⟩, slot, b₃, hslot,
      hemit⟩ := h
    obtain ⟨a, t', code, ht', _, hcode, hgen⟩ := exprAs_generates he
    have hgrows := hcode.grows hb
    obtain ⟨rfl, hgrows', hv, hl⟩ :=
      store_new hgrows.consistent (valueType_ok.mp ht) hbind hslot hemit
    rw [valueType_ok.mp ht] at ht' ⊢
    cases ht'
    refine ⟨_, hgrows.trans hgrows', fun hvars => ?_⟩
    rw [hl]
    exact .declare (hgen (hgrows.within (hgrows'.within hvars))) (hvars hv)

/-- Each test takes a label for its arm. The scope stays what it was, so all tests see the same
variables. -/
theorem tests_generates {target : Variable} {loc : Location} :
    ∀ (arms : List BranchArm) {b b' : Body} {labels : List Label},
      tests s target loc arms b = .ok (labels, b') → labels.length = arms.length ∧
      ∃ code, b.Appends code b' ∧ ∀ {vars : Variables}, b.scope.Within vars →
        TestsCode s.functions vars target arms b.labels code labels b'.labels
  | [], b, b', labels, h => by
    obtain ⟨rfl, rfl⟩ := state_pure_ok.mp h
    exact ⟨rfl, [], .refl _, fun _ => .nil⟩
  | .mk test body :: rest, b, b', labels, h => by
    simp only [tests, state_bind_ok, state_lift_ok] at h
    obtain ⟨tv, _, htv, t, _, ⟨ht, rfl⟩, _, b₁, hload, _, b₂, hcast, _, b₃, hvalue, _, b₄,
      hcompare, arm, b₅, harm, _, b₆, hjump, labels', b₇, hrest, h⟩ := h
    obtain ⟨rfl, rfl⟩ := state_pure_ok.mp h
    obtain ⟨htv', rfl⟩ := typeOf_ok htv
    obtain ⟨a₁, l₁⟩ := emit_ok hload
    obtain ⟨c, t₂, hc, ht₂, a₂, l₂⟩ := cast_ok hcast
    obtain ⟨a, t₃, code, ht₃, hta, a₃, hgen⟩ := exprAs_generates hvalue
    obtain ⟨a₄, l₄⟩ := emit_ok hcompare
    obtain ⟨rfl, a₅, l₅⟩ := freshLabel_ok harm
    obtain ⟨a₆, l₆⟩ := emit_ok hjump
    obtain ⟨hlen, tail, a₇, htail⟩ := tests_generates rest hrest
    cases hc
    rw [(a₁.trans a₂).scope, htv'] at hta
    cases hta
    -- both sides are converted to the type that was found first
    rw [valueType_ok.mp ht] at ht₂ ht₃
    cases ht₂
    cases ht₃
    have hcommon := valueType_ok.mp ht
    rw [promote_some] at hcommon
    -- none of the steps of a test declares anything
    have hscope : b₆.scope = b.scope := by
      rw [a₆.scope, a₅.scope, a₄.scope, a₃.scope, a₂.scope, a₁.scope]
    rw [l₄] at a₆
    refine ⟨by simp [hlen], _,
      (((a₁.trans a₂).trans a₃).trans (a₄.trans (a₅.trans a₆))).trans a₇, ?_⟩
    intro vars hvars
    rw [l₂, l₁] at hgen
    rw [l₆, l₅, l₄] at htail
    rw [l₄]
    refine .cons (hgen ?_) (Option.some.inj hcommon).symm (htail ?_)
    · rw [a₂.scope, a₁.scope]
      exact hvars
    · rw [hscope]
      exact hvars

/-! ### Loops and branches

The parts of a loop and of a branch are statements again, and what is generated for them is a
hypothesis of the lemmas here. The scope grows while a part is lowered. What is said of its code is
therefore said for any variables that include those of the scope at the end, and the scope before
each part is within them. -/

/-- Lowering a statement appends code for it and declares its variables. The code is the same
whatever variables are declared later, so it is named before them. -/
def StmtGenerates (s : Surroundings) (st : Stmt) : Prop :=
  ∀ {b b' : Body} {u : Unit}, stmt s st b = .ok (u, b') → b.Consistent →
    ∃ code, b.Grows code st.declared b' ∧ ∀ {vars : Variables}, b'.scope.Within vars →
      StmtCode s.functions vars s.result st b.labels code b'.labels

/-- Lowering statements in sequence, in the order in which they stand. -/
def StmtsGenerate (s : Surroundings) (body : List Stmt) : Prop :=
  ∀ {b b' : Body} {u : Unit}, stmts s body b = .ok (u, b') → b.Consistent →
    ∃ code, b.Grows code (Stmt.declaredAll body) b' ∧ ∀ {vars : Variables}, b'.scope.Within vars →
      StmtsCode s.functions vars s.result body b.labels code b'.labels

/-- Lowering the bodies of a branch, each behind the label that its test jumps to. -/
def BodiesGenerate (s : Surroundings) (arms : List BranchArm) : Prop :=
  ∀ {done : Label} {labels : List Label} {b b' : Body} {u : Unit},
    bodies s done arms labels b = .ok (u, b') → b.Consistent → labels.length = arms.length →
      ∃ code, b.Grows code (BranchArm.declaredAll arms) b' ∧
        ∀ {vars : Variables}, b'.scope.Within vars →
          BodiesCode s.functions vars s.result done arms labels b.labels code b'.labels

/-- The start of a loop is marked before its body, and the condition behind the body jumps back. -/
theorem loop_generates {loc : Location} {body : List Stmt} {condition : Expr}
    (hstmts : StmtsGenerate s body) : StmtGenerates s (.loop loc body condition) := by
  intro b b' u h hb
  simp only [stmt, state_bind_ok] at h
  obtain ⟨_, b₁, hline, start, b₂, hstart, _, b₃, hmark, _, b₄, hbody, _, b₅, hline', _, b₆,
    hcond, hjump⟩ := h
  obtain ⟨a₁, l₁⟩ := setLine_ok hline
  obtain ⟨rfl, a₂, l₂⟩ := freshLabel_ok hstart
  obtain ⟨a₃, l₃⟩ := mark_ok hmark
  have hopen := ((a₁.trans a₂).trans a₃).grows hb
  obtain ⟨inner, hinner, hgenInner⟩ := hstmts hbody hopen.consistent
  obtain ⟨a₅, l₅⟩ := setLine_ok hline'
  obtain ⟨a, t, code, ht, _, a₆, hgen⟩ := exprAs_generates hcond
  obtain ⟨a₇, l₇⟩ := emit_ok hjump
  cases ht
  have htest := (a₅.trans (a₆.trans a₇)).grows hinner.consistent
  rw [l₃, l₂, l₁] at hgenInner
  rw [l₅, a₅.scope] at hgen
  rw [l₇]
  refine ⟨_, ((hopen.trans hinner).trans htest).of_eq ?_ ?_, fun hvars =>
    StmtCode.loop (hgenInner (htest.within hvars)) (hgen (htest.within hvars))⟩
  · simp [l₁]
  · simp [Stmt.declared]

/-- Without a default, a branch whose tests all fail goes to its end. -/
theorem branch_generates {loc : Location} {target : String} {arms : List BranchArm}
    (harms : BodiesGenerate s arms) : StmtGenerates s (.branch loc target arms none) := by
  intro b b' u h hb
  simp only [stmt, state_bind_ok] at h
  obtain ⟨_, b₁, hline, v, _, hv, done, b₂, hdone, labels, b₃, htests, _, b₄, hjump, _, b₅,
    hbodies, hmark⟩ := h
  obtain ⟨a₁, l₁⟩ := setLine_ok hline
  obtain ⟨hv', rfl⟩ := lookup_ok hv
  obtain ⟨rfl, a₂, l₂⟩ := freshLabel_ok hdone
  obtain ⟨hlen, tests, a₃, hgenTests⟩ := tests_generates arms htests
  obtain ⟨a₄, l₄⟩ := emit_ok hjump
  have ha := (a₁.trans a₂).trans (a₃.trans a₄)
  -- up to here nothing is declared
  have hopen := ha.grows hb
  obtain ⟨inner, hinner, hgenInner⟩ := harms hbodies hopen.consistent hlen
  obtain ⟨a₆, l₆⟩ := mark_ok hmark
  -- the labels and the scope at each part are those left by the parts before it
  have hclose := a₆.grows hinner.consistent
  rw [l₂, l₁, (a₁.trans a₂).scope] at hgenTests
  rw [l₄, l₁] at hgenInner
  rw [a₁.scope] at hv'
  have hall := (hopen.trans hinner).trans hclose
  rw [l₆]
  refine ⟨_, hall.of_eq ?_ ?_, fun hvars =>
    StmtCode.branch (hall.within hvars hv') (hgenTests (hall.within hvars))
      (hgenInner (hclose.within hvars))⟩
  · simp [l₁]
  · simp [Stmt.declared]

/-- The default has a label of its own behind the bodies, where a branch goes whose tests all
fail. -/
theorem branchElse_generates {loc : Location} {target : String} {arms : List BranchArm}
    {otherwise : List Stmt} (harms : BodiesGenerate s arms)
    (hotherwise : StmtsGenerate s otherwise) :
    StmtGenerates s (.branch loc target arms (some otherwise)) := by
  intro b b' u h hb
  simp only [stmt, state_bind_ok] at h
  obtain ⟨_, b₁, hline, v, _, hv, done, b₂, hdone, labels, b₃, htests, default, b₄, hdefault,
    _, b₅, hjump, _, b₆, hbodies, _, b₇, hmark, _, b₈, helse, hmark'⟩ := h
  obtain ⟨a₁, l₁⟩ := setLine_ok hline
  obtain ⟨hv', rfl⟩ := lookup_ok hv
  obtain ⟨rfl, a₂, l₂⟩ := freshLabel_ok hdone
  obtain ⟨hlen, tests, a₃, hgenTests⟩ := tests_generates arms htests
  obtain ⟨rfl, a₄, l₄⟩ := freshLabel_ok hdefault
  obtain ⟨a₅, l₅⟩ := emit_ok hjump
  have ha := (a₁.trans a₂).trans (a₃.trans (a₄.trans a₅))
  have hopen := ha.grows hb
  obtain ⟨inner, hinner, hgenInner⟩ := harms hbodies hopen.consistent hlen
  obtain ⟨a₇, l₇⟩ := mark_ok hmark
  have hmid := a₇.grows hinner.consistent
  obtain ⟨code, hcode, hgen⟩ := hotherwise helse hmid.consistent
  obtain ⟨a₉, l₉⟩ := mark_ok hmark'
  have hclose := a₉.grows hcode.consistent
  rw [l₂, l₁, (a₁.trans a₂).scope] at hgenTests
  rw [l₅, l₄, l₁] at hgenInner
  rw [l₇] at hgen
  rw [a₁.scope] at hv'
  have hlast := hmid.trans (hcode.trans hclose)
  have hall := (hopen.trans hinner).trans hlast
  rw [l₉]
  refine ⟨_, hall.of_eq ?_ ?_, fun hvars =>
    StmtCode.branchElse (hall.within hvars hv') (hgenTests (hall.within hvars))
      (hgenInner (hlast.within hvars)) (hgen (hclose.within hvars))⟩
  · simp [l₁]
  · simp [Stmt.declared]

mutual

/-- The code of a statement, and the variables that it declares. The statements that contain others
are left to the lemmas above, and in the other cases the steps of the generator are gone through one
by one. -/
theorem stmt_generates : ∀ st : Stmt, StmtGenerates s st
  | .read loc target, b, b', u, h, hb => by
    simp only [stmt, state_bind_ok] at h
    obtain ⟨_, b₁, hline, v, _, hv, _, b₂, hread, hstore⟩ := h
    obtain ⟨a₁, l₁⟩ := setLine_ok hline
    obtain ⟨hv', rfl⟩ := lookup_ok hv
    obtain ⟨a₂, l₂⟩ := emit_ok hread
    obtain ⟨a₃, l₃⟩ := emit_ok hstore
    have ha := a₁.trans (a₂.trans a₃)
    refine ⟨_, ha.grows hb, fun hvars => ?_⟩
    rw [l₃, l₂, l₁]
    refine .read (hvars ?_)
    rw [ha.scope, ← a₁.scope]
    exact hv'
  | .print loc value, b, b', u, h, hb => by
    simp only [stmt, state_bind_ok, state_lift_ok] at h
    obtain ⟨_, b₁, hline, tv, _, htv, t, _, ⟨ht, rfl⟩, _, b₂, hdiscard, hprint⟩ := h
    obtain ⟨a₁, l₁⟩ := setLine_ok hline
    obtain ⟨htv', rfl⟩ := typeOf_ok htv
    obtain ⟨te, he⟩ := state_discard_ok.mp hdiscard
    obtain ⟨hte, code, a₂, hgen⟩ := expr_generates he
    obtain ⟨a₃, l₃⟩ := emit_ok hprint
    rw [htv'] at hte
    cases hte
    -- the type that is printed is the one that was looked up before
    cases valueType_ok.mp ht
    have ha := a₁.trans (a₂.trans a₃)
    refine ⟨_, ha.grows hb, fun hvars => ?_⟩
    rw [l₃, ← l₁]
    refine .print (hgen ?_)
    rw [a₁.scope, ← ha.scope]
    exact hvars
  | .declare loc name type init, b, b', u, h, hb => by
    simp only [stmt, state_bind_ok] at h
    obtain ⟨_, b₁, hline, h⟩ := h
    obtain ⟨a₁, l₁⟩ := setLine_ok hline
    obtain ⟨code, hgrows, hgen⟩ := declare_generates h (a₁.grows hb).consistent
    rw [l₁] at hgen
    have hall := (a₁.grows hb).trans hgrows
    rw [List.nil_append, List.nil_append] at hall
    exact ⟨code, hall, hgen⟩
  | .assign loc name value, b, b', u, h, hb => by
    simp only [stmt, state_bind_ok] at h
    obtain ⟨_, b₁, hline, v, _, hv, _, b₂, hvalue, hstore⟩ := h
    obtain ⟨a₁, l₁⟩ := setLine_ok hline
    obtain ⟨hv', rfl⟩ := lookup_ok hv
    obtain ⟨a, t, code, ht, _, a₂, hgen⟩ := exprAs_generates hvalue
    obtain ⟨a₃, l₃⟩ := emit_ok hstore
    cases ht
    have ha := a₁.trans (a₂.trans a₃)
    refine ⟨_, ha.grows hb, fun hvars => ?_⟩
    rw [l₃, ← l₁]
    refine .assign (hvars ?_) (hgen ?_)
    · rw [ha.scope, ← a₁.scope]
      exact hv'
    · rw [a₁.scope, ← ha.scope]
      exact hvars
  | .ret loc value, b, b', u, h, hb => by
    simp only [stmt, state_bind_ok] at h
    obtain ⟨_, b₁, hline, h⟩ := h
    obtain ⟨a₁, l₁⟩ := setLine_ok hline
    obtain ⟨code, a₂, hgen⟩ := giveBack_generates h
    have ha := a₁.trans a₂
    refine ⟨_, ha.grows hb, fun hvars => ?_⟩
    rw [← l₁]
    refine hgen ?_
    rw [a₁.scope, ← ha.scope]
    exact hvars
  | .call loc name args, b, b', u, h, hb => by
    simp only [stmt, state_bind_ok] at h
    obtain ⟨_, b₁, hline, t, b₂, he, hdrop⟩ := h
    obtain ⟨a₁, l₁⟩ := setLine_ok hline
    obtain ⟨_, code, a₂, hgen⟩ := expr_generates he
    obtain ⟨a₃, l₃⟩ := drop_ok hdrop
    have ha := a₁.trans (a₂.trans a₃)
    refine ⟨_, ha.grows hb, fun hvars => ?_⟩
    rw [l₃, ← l₁]
    refine .call (hgen ?_)
    rw [a₁.scope, ← ha.scope]
    exact hvars
  | .assert loc condition, b, b', u, h, hb => by
    simp only [stmt, state_bind_ok] at h
    obtain ⟨_, b₁, hline, ok, b₂, hok, _, b₃, hcond, _, b₄, hjump, _, b₅, hfatal, hmark⟩ := h
    obtain ⟨a₁, l₁⟩ := setLine_ok hline
    obtain ⟨rfl, a₂, l₂⟩ := freshLabel_ok hok
    obtain ⟨a, t, code, ht, _, a₃, hgen⟩ := exprAs_generates hcond
    obtain ⟨a₄, l₄⟩ := emit_ok hjump
    obtain ⟨a₅, l₅⟩ := fatal_ok hfatal
    obtain ⟨a₆, l₆⟩ := mark_ok hmark
    cases ht
    have ha := (a₁.trans a₂).trans (((a₃.trans a₄).trans a₅).trans a₆)
    refine ⟨_, ha.grows hb, fun hvars => ?_⟩
    rw [l₁] at l₂
    rw [l₆, l₅, l₄, l₁]
    refine .assert (l₂ ▸ hgen ?_)
    rw [(a₁.trans a₂).scope, ← ha.scope]
    exact hvars
  | .abort loc, b, b', u, h, hb => by
    simp only [stmt, state_bind_ok] at h
    obtain ⟨_, b₁, hline, hfatal⟩ := h
    obtain ⟨a₁, l₁⟩ := setLine_ok hline
    obtain ⟨a₂, l₂⟩ := fatal_ok hfatal
    refine ⟨_, (a₁.trans a₂).grows hb, fun _ => ?_⟩
    rw [l₂, l₁]
    exact .abort
  | .loop _ body _, _, _, _, h, hb => loop_generates (stmts_generates body) h hb
  | .branch _ _ arms none, _, _, _, h, hb => branch_generates (bodies_generates arms) h hb
  | .branch _ _ arms (some otherwise), _, _, _, h, hb =>
    branchElse_generates (bodies_generates arms) (stmts_generates otherwise) h hb

/-- Statements in sequence, each with the variables of those before it in scope. -/
theorem stmts_generates : ∀ body : List Stmt, StmtsGenerate s body
  | [], b, b', u, h, hb => by
    simp only [stmts] at h
    obtain ⟨_, rfl⟩ := state_pure_ok.mp h
    exact ⟨[], (Body.Appends.refl _).grows hb, fun _ => .nil⟩
  | first :: rest, b, b', u, h, hb => by
    simp only [stmts, state_bind_ok] at h
    obtain ⟨_, b₁, hfirst, hrest⟩ := h
    obtain ⟨code, hcode, hgen⟩ := stmt_generates first hfirst hb
    obtain ⟨tail, htail, hgen'⟩ := stmts_generates rest hrest hcode.consistent
    exact ⟨_, hcode.trans htail, fun hvars => .cons (hgen (htail.within hvars)) (hgen' hvars)⟩

/-- The bodies of a branch. There are as many labels as arms, since the tests have handed them
out. -/
theorem bodies_generates : ∀ arms : List BranchArm, BodiesGenerate s arms
  | [], done, [], b, b', u, h, hb, _ => by
    simp only [bodies] at h
    obtain ⟨_, rfl⟩ := state_pure_ok.mp h
    exact ⟨[], (Body.Appends.refl _).grows hb, fun _ => .nil⟩
  | [], _, _ :: _, b, b', u, h, hb, hlen => by cases hlen
  | _ :: _, _, [], b, b', u, h, hb, hlen => by cases hlen
  | .mk test body :: rest, done, label :: labels, b, b', u, h, hb, hlen => by
    simp only [bodies, state_bind_ok] at h
    obtain ⟨_, b₁, hmark, _, b₂, hbody, _, b₃, hjump, hrest⟩ := h
    obtain ⟨a₁, l₁⟩ := mark_ok hmark
    have hopen := a₁.grows hb
    obtain ⟨code, hcode, hgen⟩ := stmts_generates body hbody hopen.consistent
    obtain ⟨a₃, l₃⟩ := emit_ok hjump
    have hclose := a₃.grows hcode.consistent
    obtain ⟨tail, htail, hgen'⟩ :=
      bodies_generates rest hrest hclose.consistent (Nat.succ.inj hlen)
    rw [l₁] at hgen
    rw [l₃] at hgen'
    refine ⟨_, ((hopen.trans hcode).trans (hclose.trans htail)).of_eq ?_ ?_, fun hvars =>
      .cons (hgen (hclose.within (htail.within hvars))) (hgen' hvars)⟩
    · simp
    · simp [BranchArm.declaredAll]

end

end Lowering

/-! ## Functions -/

/-- What the block of a function consists of: the code of its body over the variables of a scope,
followed by code that gives back zero. The parameters are the variables `inputs`. Labels are
numbered from zero in each function, and the variables that the code refers to are those of the
scope at its end. -/
structure FunctionCode (fs : FunctionTable) (params : List Param) (result : ResultType)
    (body : List Stmt) (blk : Assembly.Block) (scope : Scope) (inputs : List (String × ValueType))
    (code : List Instr) (labels : Nat) : Prop where
  params : params = inputs.map paramOf
  signature : blk.signature = ⟨inputs.map Prod.snd, result⟩
  ordered : scope.Ordered
  declarations : scope.declarations = inputs ++ Stmt.declaredAll body
  slots : blk.slots.toList = scope.bound.toList.map Variable.type
  instrs : blk.instrs.toList = code ++ zeroCode result
  code : StmtsCode fs (fun name => scope.find? name) result body 0 code labels

/-- The code of a return without a value is determined by the result. -/
theorem StmtCode.eq_zeroCode {fs : FunctionTable} {vars : Variables} {result : ResultType}
    {loc : Location} {lo hi : Nat} {code : List Instr}
    (h : StmtCode fs vars result (.ret loc none) lo code hi) : code = zeroCode result := by
  cases h
  rfl

/-- A function begins with its parameters in scope, in the first slots. -/
theorem start_consistent {params : List Param} {loc : Location} {scope : Scope}
    {types : List ValueType} (name : String) (result : ResultType)
    (hscope : Scope.ofParams params loc = .ok scope)
    (htypes : params.mapM (fun p => valueType p.type loc) = .ok types) :
    types = scope.declarations.map Prod.snd ∧ Body.Consistent
      { scope, draft := (Draft.start name ⟨types, result⟩).setLine loc.line } := by
  obtain ⟨hordered, hparams⟩ := Scope.ofParams_ok hscope
  have htypes' : types = scope.declarations.map Prod.snd := by
    have hmap : (params.map Param.type).mapM (valueType · loc) = .ok types := by
      rw [List.mapM_map]
      exact htypes
    have hsome := valueTypes_ok.mp hmap
    rw [hparams, List.map_map] at hsome
    have hcomp : Param.type ∘ paramOf = some ∘ Prod.snd := rfl
    rw [hcomp, ← List.map_map] at hsome
    exact (List.map_injective_iff.mpr (fun _ _ => Option.some.inj) hsome).symm
  refine ⟨htypes', hordered, ?_⟩
  simp [Draft.start, Draft.setLine, htypes', Scope.declarations, Variable.declaration]

/-- The block that a function is lowered to has the name of the function and consists of its code.
The scope, the parameters and the labels are those that the generator has at the end. -/
theorem lowerBody_code {fs : FunctionTable} {name : String} {params : List Param}
    {result : ResultType} {body : List Stmt} {loc : Location} {blk : Assembly.Block}
    (h : lowerBody fs name params result body loc = .ok blk) :
    blk.name = name ∧ ∃ scope inputs code labels,
      FunctionCode fs params result body blk scope inputs code labels := by
  simp only [lowerBody, except_bind_ok, except_pure_ok, state_bind_ok] at h
  obtain ⟨scope, hscope, types, htypes, ⟨_, b'⟩, ⟨_, b, hbody, hreturn⟩, rfl⟩ := h
  obtain ⟨hordered, hparams⟩ := Scope.ofParams_ok hscope
  obtain ⟨htypes', hstart⟩ := start_consistent name result hscope htypes
  obtain ⟨code, hgrows, hgen⟩ := Lowering.stmts_generates body hbody hstart
  obtain ⟨final, ha, hfinal⟩ := Lowering.giveBack_generates hreturn
  -- a function that runs to its end gives back zero, as a bare return does
  have hzero : final = zeroCode result :=
    StmtCode.eq_zeroCode (hfinal (fun hv => hv) : StmtCode fs (fun x => b.scope.find? x) result
      (.ret loc none) b.labels final b'.labels)
  have hclose := ha.grows hgrows.consistent
  refine ⟨hclose.name.trans hgrows.name, b'.scope, scope.declarations, code, b.labels, ?_⟩
  refine ⟨hparams, ?_, hclose.consistent.ordered, ?_, hclose.consistent.slots, ?_, ?_⟩
  · rw [hclose.signature, hgrows.signature, ← htypes']
    rfl
  · rw [ha.scope]
    exact hgrows.declarations
  · rw [ha.instrs, hgrows.instrs, hzero]
    simp [Draft.start, Draft.setLine]
  · rw [ha.scope]
    exact hgen fun hv => hv

end TypedStack.Compile
