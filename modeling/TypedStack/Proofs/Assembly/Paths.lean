import Mathlib.Logic.Relation
import TypedStack.Proofs.Assembly.Typed
/-!
# Paths through symbolic code

A piece of code can be followed under the verifier's typing rules before it belongs to any block.
`waysOn` shows the verifier one instruction, in a block that holds just what the instruction refers
to, and `Moves` follows the ways on: to the next instruction, or to the mark of a jump's label.

`Pushes` is about all the paths through a piece of code, from any operand stack. They end behind the
code with certain types on top of that stack, and no instruction on the way looks at what was there
before. Typed code whose jumps lead forward has this property (`Flows.pushes`).
-/

set_option autoImplicit false

namespace TypedStack.Assembly

/-! ## One instruction before the verifier

The rules of the verifier are stated for encoded instructions of a block. To apply them to an
instruction that has no block yet, it is given a block with one constant and one callee, its own. -/

/-- The encoded form of an instruction that stands alone: all that it refers to has number zero. -/
def loneOp (o : SymbolicOp) : EncodedOp :=
  Id.run (o.traverse (fun _ => pure 0) (fun _ => pure 0) (fun _ => pure 0) fun _ => pure 0)

/-- A block with given slots and result that has only the constant of one instruction, among blocks
of which there is only the one that the instruction calls. -/
def loneContext (slots : Array ValueType) (result : ResultType) (o : SymbolicOp) :
    TypingContext where
  blocks := ((callee? o).map fun callee =>
    TypedStack.Block.mk callee.name callee.signature #[] {}).toArray
  block :=
    { name := "", signature := ⟨[], result⟩, slots := slots,
      segment := { pool := (constant? o).toArray } }

/-- The ways on from an instruction: to a label or to what comes next, and the shape there. The
verifier sees the instruction's target at offset zero, and what comes next behind it. -/
def waysOn (slots : Array ValueType) (result : ResultType) (o : SymbolicOp) (shape : Shape) :
    Except VerifyFault (List (Option Label × Shape)) :=
  ((loneContext slots result o).edges (loneOp o) 1 shape).map fun es =>
    es.map fun e => (if e.1 = 0 then o.target? else none, e.2)

section

variable {slots : Array ValueType} {result : ResultType}

/-- The ways on are those of a typing rule, with labels for targets. -/
theorem waysOn_ok {o : SymbolicOp} {s : Shape} {ways : List (Option Label × Shape)} :
    waysOn slots result o s = .ok ways ↔
      ∃ es, (loneContext slots result o).Rule 1 (loneOp o) s es ∧
        ways = es.map fun e => (if e.1 = 0 then o.target? else none, e.2) := by
  unfold waysOn
  cases h : (loneContext slots result o).edges (loneOp o) 1 s with
  | error e =>
    have hno : ∀ es, ¬ (loneContext slots result o).Rule 1 (loneOp o) s es := by
      intro es hrule
      rw [hrule.edges_eq] at h
      cases h
    simp [Except.map, hno]
  | ok es =>
    have honly : ∀ es', (loneContext slots result o).Rule 1 (loneOp o) s es' ↔ es' = es := by
      intro es'
      rw [← TypingContext.edges_iff, h, Except.ok.injEq, eq_comm]
    simp [Except.map, honly, eq_comm]

/-- Alone, an instruction refers to the same things as in its symbolic form. -/
theorem related_loneOp (o : SymbolicOp) :
    Op.Related (fun k i => (loneContext slots result o).block.segment.pool[i.toNat]? = some k)
      (fun text i =>
        (loneContext slots result o).block.segment.pool[i.toNat]? = some (.message text))
      (fun callee i => ∃ e, (loneContext slots result o).blocks[i.toNat]? = some e ∧
        e.signature = callee.signature)
      (fun l t => o.target? = some l ∧ t.toNat = 0) o (loneOp o) := by
  cases o with
  | const k => exact .const rfl
  | jump l => exact .jump ⟨rfl, rfl⟩
  | jumpIf relation l => exact .jumpIf relation ⟨rfl, rfl⟩
  | jumpIfTrue l => exact .jumpIfTrue ⟨rfl, rfl⟩
  | call callee => exact .call ⟨_, rfl, rfl⟩
  | printError text => exact .printError rfl
  | _ => constructor

/-- A typed instruction has its rule, and every way on agrees with its typing: what comes next has
the shape that the typing leaves, and a label has a mark with the shape that the jump brings. -/
theorem OpTyped.waysOn {marked : Label → Shape → Prop} {o : SymbolicOp} {s : Shape}
    {out : Option Shape} (h : OpTyped slots result marked o s out) :
    ∃ ways, Assembly.waysOn slots result o s = .ok ways ∧
      (∀ u, (none, u) ∈ ways → out = some u) ∧
      ∀ l u, (some l, u) ∈ ways → o.target? = some l ∧ marked l u := by
  obtain ⟨es, hrule, hes⟩ := @OpTyped.rule_of_related _ (loneContext slots result o).block _
    (fun l n => o.target? = some l ∧ n = 0) _ _ _ _ h (related_loneOp o) 1
  refine ⟨_, waysOn_ok.mpr ⟨es, hrule, rfl⟩, fun u hu => ?_, fun l u hu => ?_⟩
  · obtain ⟨e, he, hway⟩ := List.mem_map.mp hu
    obtain ⟨hnone, rfl⟩ := Prod.mk.inj hway
    rcases hes e he with ⟨-, hout⟩ | ⟨l, ⟨htarget, hzero⟩, -⟩
    · exact hout
    · rw [if_pos hzero, htarget] at hnone
      cases hnone
  · obtain ⟨e, he, hway⟩ := List.mem_map.mp hu
    obtain ⟨hsome, rfl⟩ := Prod.mk.inj hway
    rcases hes e he with ⟨hnext, -⟩ | ⟨l', ⟨htarget, hzero⟩, hl⟩
    · rw [if_neg (by omega)] at hsome
      cases hsome
    · rw [if_pos hzero, htarget] at hsome
      cases hsome
      exact ⟨htarget, hl⟩

/-- The ways on with more below the operands. -/
def liftWays (base : Shape) (ways : List (Option Label × Shape)) : List (Option Label × Shape) :=
  ways.map fun way => (way.1, way.2 ++ base)

/-- A way on with more below, as a way on without. -/
theorem mem_liftWays {base u : Shape} {label? : Option Label} {ways : List (Option Label × Shape)} :
    (label?, u) ∈ liftWays base ways ↔ ∃ v, (label?, v) ∈ ways ∧ u = v ++ base := by
  simp only [liftWays, List.mem_map, Prod.mk.injEq, Prod.exists]
  constructor
  · rintro ⟨_, v, hv, rfl, rfl⟩
    exact ⟨v, hv, rfl⟩
  · rintro ⟨v, hv, rfl⟩
    exact ⟨label?, v, hv, rfl, rfl⟩

/-- An instruction leaves what lies below its operands as it was. -/
theorem waysOn_under {o : SymbolicOp} {s : Shape} {ways : List (Option Label × Shape)}
    (h : waysOn slots result o s = .ok ways) (base : Shape) :
    waysOn slots result o (s ++ base) = .ok (liftWays base ways) := by
  obtain ⟨es, hrule, rfl⟩ := waysOn_ok.mp h
  exact waysOn_ok.mpr ⟨_, hrule.under base, by simp [liftWays]⟩

/-- Only an instruction that leaves the block has no way on. -/
theorem waysOn_ne_nil {o : SymbolicOp} (ho : o.isTerminal = true → o.target?.isSome = true)
    {s : Shape} {ways : List (Option Label × Shape)} (h : waysOn slots result o s = .ok ways) :
    ways ≠ [] := by
  obtain ⟨es, hrule, rfl⟩ := waysOn_ok.mp h
  intro hnil
  obtain rfl := List.map_eq_nil_iff.mp hnil
  cases o with
  | ret t => cases ho rfl
  | retVoid => cases ho rfl
  | exit => cases ho rfl
  | _ => cases hrule

end

/-! ## Paths

What is said about a piece of code is said about the places that a path can come to. -/

/-- A place in code that runs: the instructions ahead, and the shape of the operand stack. -/
structure Place where
  ahead : List Instr
  shape : Shape

/-- One move through some code under the typing rules, whose jumps go to the marks in the code. -/
inductive Moves (slots : Array ValueType) (result : ResultType) (code : List Instr) :
    Place → Place → Prop
  | mark {l : Label} {rest : List Instr} {s : Shape} :
      Moves slots result code ⟨.mark l :: rest, s⟩ ⟨rest, s⟩
  | next {o : SymbolicOp} {rest : List Instr} {s u : Shape} {ways : List (Option Label × Shape)}
      (h : waysOn slots result o s = .ok ways) (hu : (none, u) ∈ ways) :
      Moves slots result code ⟨.op o :: rest, s⟩ ⟨rest, u⟩
  | jump {o : SymbolicOp} {rest after : List Instr} {l : Label} {s u : Shape}
      {ways : List (Option Label × Shape)} (h : waysOn slots result o s = .ok ways)
      (hu : (some l, u) ∈ ways) (hl : .mark l :: after <:+ code) :
      Moves slots result code ⟨.op o :: rest, s⟩ ⟨.mark l :: after, u⟩

/-- The places on the paths from a place on. -/
abbrev Reaches (slots : Array ValueType) (result : ResultType) (code : List Instr) :
    Place → Place → Prop :=
  Relation.ReflTransGen (Moves slots result code)

/-- Every path through some code pushes certain types on the operand stack, whatever is there. -/
structure Pushes (slots : Array ValueType) (result : ResultType) (code : List Instr)
    (pushed : Shape) : Prop where
  /-- A jump has one place to go to. -/
  distinct : (marksOf code).Nodup
  /-- An instruction has its rule even where only what the code has pushed is on the stack. It does
  not leave the block, and its jump stays inside the code. -/
  inside : ∀ {base s : Shape} {o : SymbolicOp} {rest : List Instr},
    Reaches slots result code ⟨code, base⟩ ⟨.op o :: rest, s⟩ →
      ∃ above ways, s = above ++ base ∧ waysOn slots result o above = .ok ways ∧ ways ≠ [] ∧
        waysOn slots result o s = .ok (liftWays base ways) ∧
        ∀ l u, (some l, u) ∈ ways → l ∈ marksOf code
  /-- A move brings a path nearer to the end. -/
  forward : ∀ {base : Shape} {p q : Place}, Reaches slots result code ⟨code, base⟩ p →
    Moves slots result code p q → q.ahead.length < p.ahead.length
  /-- At the end the pushed types are on top of the stack that was there. -/
  ends : ∀ {base s : Shape}, Reaches slots result code ⟨code, base⟩ ⟨[], s⟩ → s = pushed ++ base

/-! ## Code whose jumps lead forward

Such code comes to its end, and that is all there is to say about it: a compiled expression has
jumps only where it makes a truth value out of a comparison. -/

/-- No instruction leaves the block, and every jump goes to a mark further on. -/
def LeadsForward : List Instr → Prop
  | [] => True
  | .mark _ :: rest => LeadsForward rest
  | .op o :: rest => (o.isTerminal = true → o.target?.isSome = true) ∧
      (∀ l, o.target? = some l → l ∈ marksOf rest) ∧ LeadsForward rest

namespace LeadsForward

/-- A jump of the first piece goes to a mark of the first piece, and one of the second to one of the
second. -/
theorem append {a b : List Instr} (ha : LeadsForward a) (hb : LeadsForward b) :
    LeadsForward (a ++ b) := by
  induction a with
  | nil => exact hb
  | cons i a ih =>
    cases i with
    | mark l => exact ih ha
    | op o =>
      obtain ⟨hstay, hjump, hrest⟩ := ha
      refine ⟨hstay, fun l hl => ?_, ih hrest⟩
      show l ∈ marksOf (a ++ b)
      rw [marksOf_append]
      exact List.mem_append_left _ (hjump l hl)

theorem of_suffix {a b : List Instr} (h : LeadsForward b) (hs : a <:+ b) : LeadsForward a := by
  obtain ⟨pre, rfl⟩ := hs
  induction pre with
  | nil => exact h
  | cons i pre ih =>
    cases i with
    | mark l => exact ih h
    | op o => exact ih h.2.2

theorem single {o : SymbolicOp} (hterminal : o.isTerminal = false) (htarget : o.target? = none) :
    LeadsForward [.op o] := by
  refine ⟨fun h => ?_, fun l hl => ?_, trivial⟩
  · rw [hterminal] at h
    cases h
  · rw [htarget] at hl
    cases hl

end LeadsForward

/-- Where marks are distinct, a label leads to one place. -/
theorem mark_suffix_unique {code a b : List Instr} {l : Label} (hd : (marksOf code).Nodup)
    (ha : .mark l :: a <:+ code) (hb : .mark l :: b <:+ code) : a = b := by
  -- the longer of the two has the shorter as a suffix; a proper one would be behind its first mark
  have hshort : ∀ {x y : List Instr}, .mark l :: x <:+ code → .mark l :: y <:+ .mark l :: x →
      x = y := by
    intro x y hx hy
    rcases List.suffix_cons_iff.mp hy with heq | htail
    · exact (List.cons.inj heq).2.symm
    · have hnodup : (marksOf (.mark l :: x)).Nodup :=
        hd.sublist (hx.sublist.filterMap Instr.mark?)
      have hmem : l ∈ marksOf x := mem_marksOf.mpr (htail.mem List.mem_cons_self)
      exact absurd hmem (List.nodup_cons.mp hnodup).1
  rcases List.suffix_or_suffix_of_suffix ha hb with h | h
  · exact (hshort hb h).symm
  · exact hshort ha h

namespace Flows

variable {slots : Array ValueType} {result : ResultType} {ann : List Annotated} {pushed : Shape}

/-- A place in annotated code, above what was on the operand stack: the rest of the code flows from
what has been pushed so far. -/
def Holds (slots : Array ValueType) (result : ResultType) (ann : List Annotated)
    (pushed base : Shape) (p : Place) : Prop :=
  ∃ post above, post <:+ ann ∧ p = ⟨post.map Prod.snd, above ++ base⟩ ∧
    Flows slots result ann above post pushed

/-- The shape at an instruction of annotated code, and the ways on from it. -/
theorem Holds.op {base s : Shape} {o : SymbolicOp} {rest : List Instr}
    (h : Holds slots result ann pushed base ⟨.op o :: rest, s⟩) :
    ∃ above ways post, s = above ++ base ∧ waysOn slots result o above = .ok ways ∧
      rest = post.map Prod.snd ∧ (above, .op o) :: post <:+ ann ∧
      (∀ u, (none, u) ∈ ways → Flows slots result ann u post pushed) ∧
      ∀ l u, (some l, u) ∈ ways → o.target? = some l ∧ (u, .mark l) ∈ ann := by
  obtain ⟨post, above, hsuffix, hplace, hflows⟩ := h
  cases post with
  | nil => cases hplace
  | cons x post =>
    obtain ⟨t, i⟩ := x
    cases hplace
    have hhere : t = above := by
      cases hflows <;> rfl
    subst hhere
    obtain ⟨out, htyped, hpost⟩ := hflows.op_typed
    obtain ⟨ways, hways, hnext, hjump⟩ := htyped.waysOn
    exact ⟨t, ways, post, rfl, hways, rfl, hsuffix, fun u hu => hpost u (hnext u hu), hjump⟩

/-- Where a label stands in annotated code, the rest flows from the shape of its mark. -/
theorem holds_mark (hflows : Flows slots result ann [] ann pushed)
    (hd : (marksOf (ann.map Prod.snd)).Nodup) (base : Shape) {l : Label} {s : Shape}
    {after : List Instr} (hs : (s, .mark l) ∈ ann) (hl : .mark l :: after <:+ ann.map Prod.snd) :
    Holds slots result ann pushed base ⟨.mark l :: after, s ++ base⟩ := by
  obtain ⟨pre, post, hann⟩ := List.append_of_mem hs
  have hsuffix : (s, .mark l) :: post <:+ ann := ⟨pre, hann.symm⟩
  have hafter : after = post.map Prod.snd :=
    mark_suffix_unique hd hl (by simpa using hsuffix.map Prod.snd)
  refine ⟨_, s, hsuffix, by simp [hafter], ?_⟩
  have hpost : Flows slots result ann [] (pre ++ (s, .mark l) :: post) pushed := hann ▸ hflows
  exact Flows.suffix pre hpost

/-- A move leads from a place in annotated code to another. -/
theorem Holds.move (hflows : Flows slots result ann [] ann pushed)
    (hd : (marksOf (ann.map Prod.snd)).Nodup) {base : Shape} {p q : Place}
    (hp : Holds slots result ann pushed base p)
    (h : Moves slots result (ann.map Prod.snd) p q) : Holds slots result ann pushed base q := by
  cases h with
  | mark =>
    obtain ⟨post, above, hsuffix, hplace, hpost⟩ := hp
    cases hpost with
    | nil => cases hplace
    | mark hrest =>
      cases hplace
      exact ⟨_, above, (List.suffix_cons _ _).trans hsuffix, rfl, hrest⟩
    | next _ _ => cases hplace
    | stop _ _ => cases hplace
  | next hways hu =>
    obtain ⟨above, ways, post, rfl, habove, rfl, hsuffix, hnext, -⟩ := hp.op
    obtain rfl := Except.ok.inj (hways.symm.trans (waysOn_under habove base))
    obtain ⟨v, hv, rfl⟩ := mem_liftWays.mp hu
    exact ⟨post, v, (List.suffix_cons _ _).trans hsuffix, rfl, hnext v hv⟩
  | jump hways hu hl =>
    obtain ⟨above, ways, post, rfl, habove, -, -, -, hjump⟩ := hp.op
    obtain rfl := Except.ok.inj (hways.symm.trans (waysOn_under habove base))
    obtain ⟨v, hv, rfl⟩ := mem_liftWays.mp hu
    exact holds_mark hflows hd base (hjump _ v hv).2 hl

/-- Every path through annotated code stays in annotated code. -/
theorem Holds.path (hflows : Flows slots result ann [] ann pushed)
    (hd : (marksOf (ann.map Prod.snd)).Nodup) {base : Shape} {p : Place}
    (h : Reaches slots result (ann.map Prod.snd) ⟨ann.map Prod.snd, base⟩ p) :
    Holds slots result ann pushed base p := by
  induction h with
  | refl => exact ⟨ann, [], List.suffix_rfl, rfl, hflows⟩
  | tail _ hmove ih => exact ih.move hflows hd hmove

/-- A move in code whose jumps lead forward leaves less of the code ahead. A jump goes to a mark,
and there is only one mark of its label, which is further on. -/
theorem Holds.shorter (hforward : LeadsForward (ann.map Prod.snd))
    (hd : (marksOf (ann.map Prod.snd)).Nodup) {base : Shape} {p q : Place}
    (hp : Holds slots result ann pushed base p)
    (h : Moves slots result (ann.map Prod.snd) p q) : q.ahead.length < p.ahead.length := by
  cases h with
  | mark => exact Nat.lt_succ_self _
  | next _ _ => exact Nat.lt_succ_self _
  | @jump o rest after l s u ways hways hu hl =>
    obtain ⟨above, ways, post, rfl, habove, rfl, hsuffix, -, hjump⟩ := hp.op
    obtain rfl := Except.ok.inj (hways.symm.trans (waysOn_under habove base))
    obtain ⟨v, hv, rfl⟩ := mem_liftWays.mp hu
    have hhere : .op o :: post.map Prod.snd <:+ ann.map Prod.snd := by
      simpa using hsuffix.map Prod.snd
    -- the label is marked further on, and only there
    obtain ⟨-, hmarked, -⟩ := hforward.of_suffix hhere
    obtain ⟨before, after', hrest⟩ :=
      List.append_of_mem (mem_marksOf.mp (hmarked l (hjump l v hv).1))
    have hafter : .mark l :: after' <:+ ann.map Prod.snd :=
      ((List.suffix_append before _).trans (hrest ▸ List.suffix_cons _ _)).trans hhere
    obtain rfl := mark_suffix_unique hd hl hafter
    show (Instr.mark l :: after).length < (Instr.op o :: post.map Prod.snd).length
    rw [hrest]
    simp only [List.length_cons, List.length_append]
    omega

/-- **Typed code whose jumps lead forward pushes what it is annotated to leave.** From any operand
stack, on every path, and without a look at what was on the stack before. -/
theorem pushes {code : List Instr} (hcode : ann.map Prod.snd = code)
    (hflows : Flows slots result ann [] ann pushed) (hforward : LeadsForward code)
    (hd : (marksOf code).Nodup) : Pushes slots result code pushed := by
  subst hcode
  refine ⟨hd, ?_, ?_, ?_⟩
  · intro base s o rest h
    obtain ⟨above, ways, post, hs, habove, hrest, hsuffix, -, hjump⟩ := (Holds.path hflows hd h).op
    have hhere : .op o :: rest <:+ ann.map Prod.snd := by
      simpa [hrest] using hsuffix.map Prod.snd
    obtain ⟨hstay, -, -⟩ := hforward.of_suffix hhere
    refine ⟨above, ways, hs, habove, waysOn_ne_nil hstay habove,
      hs ▸ waysOn_under habove base, fun l u hu => ?_⟩
    exact mem_marksOf.mpr (List.mem_map_of_mem (hjump l u hu).2)
  · intro base p q hp hmove
    exact (Holds.path hflows hd hp).shorter hforward hd hmove
  · intro base s h
    obtain ⟨post, above, -, hplace, hpost⟩ := Holds.path hflows hd h
    obtain ⟨hahead, hshape⟩ := Place.mk.inj hplace
    obtain rfl := List.map_eq_nil_iff.mp hahead.symm
    cases hpost
    exact hshape

end Flows

end TypedStack.Assembly
