import TypedStack.Proofs.Verification.Fixpoint
import TypedStack.Proofs.Verification.Rules
/-!
# When a block verifies

A block is accepted if and only if it can be typed, that is, if shapes can be given to some of its
instructions in a way that the typing rules allow (`TypingContext.Typable`). Nothing of the
verifier's own procedure occurs in that condition.

The procedure takes the instruction found last first, and a jump before falling through.
`Flow.Explored` leaves both choices open: any pending instruction may be next, and its edges may be
taken in any order. Whatever the choices, the verdict is the same (`verification_exact`).
-/

set_option autoImplicit false

namespace TypedStack

/-! ## Typings

The condition is about the code and the rules. It asks for shapes at the instructions that control
can come to, and leaves the others alone. -/

/-- Shapes for some of the instructions of a block. Control enters at offset 0 with nothing on the
stack, and wherever there is a shape, the rule of the instruction applies to it and every way on
leads to an instruction, in front of the end, that has the shape which this way brings. -/
structure TypingContext.Typing (c : TypingContext) (assigned : Nat → Option Shape) : Prop where
  start : assigned 0 = some []
  boundary : ∀ {o : Nat} {s : Shape}, assigned o = some s → Sweep c.block.segment.code 0 o
  closed : ∀ {o : Nat} {s : Shape}, assigned o = some s → ∃ op next edges,
    Segment.decodeAt c.block.segment.code o = .ok (op, next) ∧ c.Rule next op s edges ∧
      ∀ edge ∈ edges, Sweep c.block.segment.code 0 edge.1 ∧ edge.1 < c.block.segment.code.size ∧
        assigned edge.1 = some edge.2

/-- What a block has to be like: its first slots hold its parameters, its code consists of whole
instructions, and these have a typing. -/
structure TypingContext.Typable (c : TypingContext) : Prop where
  params_le : c.block.signature.params.length ≤ c.block.slots.size
  params : ∀ i, i < c.block.signature.params.length →
    c.block.slots[i]? = c.block.signature.params[i]?
  sweep : Sweep c.block.segment.code 0 c.block.segment.code.size
  typing : ∃ assigned, c.Typing assigned

namespace TypingContext

variable {c : TypingContext} {table : OpTable}

theorem checkParams_iff : checkParams c.block.slots c.block.signature.params 0 = .ok () ↔
    c.block.signature.params.length ≤ c.block.slots.size ∧
      ∀ i, i < c.block.signature.params.length →
        c.block.slots[i]? = c.block.signature.params[i]? := by
  simp only [checkParams_ok, Nat.zero_add]
  refine ⟨fun h => ⟨?_, h⟩, fun h => h.2⟩
  -- the last parameter has a slot
  by_contra hlt
  have hslot := h c.block.slots.size (by omega)
  rw [Array.getElem?_eq_none (Nat.le_refl _), List.getElem?_eq_getElem (by omega)] at hslot
  cases hslot

/-- A typing is an assignment over the instructions that the sweep has found. The sweep is unique,
so an offset on it has an entry in the table. -/
theorem Typing.assignment {assigned : Nat → Option Shape} (h : c.Typing assigned)
    (htable : OpTable.ofCode c.block.segment.code = .ok table) :
    c.Assignment table fun o s => assigned o = some s where
  start := h.start
  unique hs hs' := Option.some.inj (hs.symm.trans hs')
  closed := by
    intro o s hs
    obtain ⟨op, next, edges, hd, hrule, hedges⟩ := h.closed hs
    exact ⟨op, next, edges, (OpTable.at?_iff htable).mpr ⟨h.boundary hs, hd⟩, hrule.edges_eq,
      fun edge he => (hedges edge he).2.2⟩

/-- Recorded shapes that are all justified are a typing. -/
theorem typing_of_justified {shapes : Array (Option Shape)}
    (htable : OpTable.ofCode c.block.segment.code = .ok table)
    (hstart : shapeAt shapes 0 = some [])
    (hclosed : ∀ o s, shapeAt shapes o = some s → Justified c table shapes o s) :
    c.Typing (shapeAt shapes) := by
  have hboundary : ∀ {o : Nat} {s : Shape}, shapeAt shapes o = some s →
      Sweep c.block.segment.code 0 o ∧ o < c.block.segment.code.size := by
    intro o s hs
    obtain ⟨op, next, edges, hat, _⟩ := hclosed o s hs
    obtain ⟨hsweep, hd⟩ := (OpTable.at?_iff htable).mp hat
    have hbounds := Segment.decodeAt_bounds hd
    exact ⟨hsweep, by omega⟩
  refine ⟨hstart, fun hs => (hboundary hs).1, ?_⟩
  intro o s hs
  obtain ⟨op, next, edges, hat, hedges, hall⟩ := hclosed o s hs
  refine ⟨op, next, edges, ((OpTable.at?_iff htable).mp hat).2, edges_iff.mp hedges, ?_⟩
  intro edge he
  have htarget := hall edge he
  exact ⟨(hboundary htarget).1, (hboundary htarget).2, htarget⟩

/-- **The verifier accepts exactly the blocks that can be typed.** What it records is a typing, and
a typing is enough for it. -/
theorem shapes_iff_typable : (∃ shapes, c.shapes = .ok shapes) ↔ c.Typable := by
  constructor
  · rintro ⟨shapes, h⟩
    obtain ⟨table, hrec⟩ := recorded_closed h
    obtain ⟨hle, hparams⟩ := checkParams_iff.mp (params_isPrefix.mpr hrec.params)
    exact ⟨hle, hparams, OpTable.ofCode_ok.mp ⟨table, hrec.sweep⟩, _,
      typing_of_justified hrec.sweep hrec.start hrec.closed⟩
  · rintro ⟨hle, hparams, hsweep, assigned, htyping⟩
    obtain ⟨table, htable⟩ := OpTable.ofCode_ok.mpr hsweep
    have hprefix := params_isPrefix.mp (checkParams_iff.mpr ⟨hle, hparams⟩)
    exact shapes_ok hprefix htable (htyping.assignment htable)

end TypingContext

/-! ## Any order of work

The verdicts that other orders could have are defined without a bound on the work. That each of them
is the same is shown in two directions: success is justified, and a typing rules out failure. -/

namespace Flow

/-- What checking an instruction may give: its rule does not apply, or its edges are taken, in some
order. -/
inductive Visits (c : TypingContext) (table : OpTable) (flow : Flow) (v : Visit) :
    Except LocatedFault Flow → Prop
  | fault {e : VerifyFault} (h : c.edges v.op v.next v.shape = .error e) :
      Visits c table flow v (.error ⟨v.offset, e⟩)
  | edges {edges order : List Edge} {r : Except LocatedFault Flow}
      (h : c.edges v.op v.next v.shape = .ok edges) (horder : order.Perm edges)
      (hr : order.foldlM (follow table v.offset) flow = r) : Visits c table flow v r

/-- The verdicts that checking the pending instructions can have, in whatever order they are
checked. -/
inductive Explored (c : TypingContext) (table : OpTable) : Flow → Bool → Prop
  | done {shapes : Array (Option Shape)} : Explored c table ⟨shapes, []⟩ true
  | refused {flow : Flow} {v : Visit} {rest : List Visit} {e : LocatedFault}
      (hpick : flow.pending.Perm (v :: rest))
      (h : Visits c table ⟨flow.shapes, rest⟩ v (.error e)) : Explored c table flow false
  | checked {flow flow' : Flow} {v : Visit} {rest : List Visit} {verdict : Bool}
      (hpick : flow.pending.Perm (v :: rest))
      (h : Visits c table ⟨flow.shapes, rest⟩ v (.ok flow'))
      (hrest : Explored c table flow' verdict) : Explored c table flow verdict

variable {c : TypingContext} {table : OpTable} {flow flow' : Flow}

/-- The verifier takes the edges in the order of the rule. -/
theorem visits_check (flow : Flow) (v : Visit) :
    Visits c table flow v (check c table flow v) := by
  unfold check
  cases hedges : c.edges v.op v.next v.shape with
  | error e => exact .fault hedges
  | ok edges => exact .edges hedges (.refl _) rfl

/-- The verifier's own order is one of them, as long as it stops with nothing pending. -/
theorem settle_explored :
    ∀ (fuel : Nat) (flow : Flow),
      (∀ flow', settle c table fuel flow = .ok flow' → flow'.pending = []) →
      Explored c table flow (settle c table fuel flow).isOk
  | 0, ⟨shapes, pending⟩, h => by
    obtain rfl : pending = [] := h _ rfl
    exact .done
  | fuel + 1, ⟨shapes, []⟩, h => .done
  | fuel + 1, ⟨shapes, v :: rest⟩, h => by
    have hvisit : Visits c table ⟨shapes, rest⟩ v (check c table ⟨shapes, rest⟩ v) :=
      visits_check _ v
    simp only [settle] at h ⊢
    cases hcheck : check c table ⟨shapes, rest⟩ v with
    | error e =>
      rw [hcheck] at hvisit
      exact .refused (.refl _) hvisit
    | ok mid =>
      rw [hcheck] at hvisit h
      exact .checked (.refl _) hvisit (settle_explored fuel mid h)

/-- Where all instructions pass, in some order, what is recorded in the end is justified. By
induction on the exploration, with the invariant that holds between two checks. -/
theorem Explored.closed {verdict : Bool} (h : Explored c table flow verdict)
    (hi : flow.Inv c table) (hverdict : verdict = true) :
    ∃ shapes, (∀ o s, shapeAt flow.shapes o = some s → shapeAt shapes o = some s) ∧
      ∀ o s, shapeAt shapes o = some s → Justified c table shapes o s := by
  induction h with
  | @done shapes =>
    refine ⟨shapes, fun _ _ hs => hs, fun o s hs => ?_⟩
    rcases hi.recorded o s hs with ⟨v, hv, _⟩ | hj
    · cases hv
    · exact hj
  | refused => cases hverdict
  | @checked flow _ _ rest _ hpick hvisit _ ih =>
    cases hvisit with
    | edges hedges horder hfold =>
      obtain ⟨shapes, hkeeps, hclosed⟩ := ih (hi.visit hpick hedges horder hfold) hverdict
      have hsize : (⟨flow.shapes, rest⟩ : Flow).shapes.size = table.size := hi.size
      obtain ⟨hgrow, _⟩ := follow_all_ok hsize hfold
      exact ⟨shapes, fun o s hs => hkeeps o s (hgrow.keeps o s hs), hclosed⟩

/-- Where shapes can be assigned, no order of work comes upon a fault. -/
theorem Explored.passes {verdict : Bool} {assigned : Nat → Shape → Prop}
    (h : Explored c table flow verdict) (ha : c.Assignment table assigned)
    (hf : TypingContext.Agrees table assigned flow) : verdict = true := by
  -- one instruction: its edges are assigned, so taking them succeeds and keeps to the assignment
  have hstep : ∀ {flow : Flow} {v : Visit} {rest : List Visit} {r : Except LocatedFault Flow},
      TypingContext.Agrees table assigned flow → flow.pending.Perm (v :: rest) →
      Visits c table ⟨flow.shapes, rest⟩ v r →
      ∃ flow', r = .ok flow' ∧ TypingContext.Agrees table assigned flow' := by
    rintro flow v rest r ⟨hsize, hshapes, hvisits⟩ hpick hvisit
    obtain ⟨hat, hv⟩ := hvisits v (hpick.mem_iff.mpr List.mem_cons_self)
    obtain ⟨op, next, edges, hat', hedges, hall⟩ := ha.closed hv
    rw [hat] at hat'
    cases hat'
    cases hvisit with
    | fault he =>
      rw [hedges] at he
      cases he
    | edges he horder hr =>
      rw [hedges] at he
      cases he
      have hrest : TypingContext.Agrees table assigned ⟨flow.shapes, rest⟩ :=
        ⟨hsize, hshapes, fun w hw => hvisits w (hpick.mem_iff.mpr (List.mem_cons_of_mem _ hw))⟩
      obtain ⟨flow', hfold, hagree⟩ := ha.follow_all v.offset hrest
        fun edge hedge => hall edge (horder.mem_iff.mp hedge)
      exact ⟨flow', hr.symm.trans hfold, hagree⟩
  induction h with
  | done => rfl
  | refused hpick hvisit =>
    obtain ⟨_, hok, _⟩ := hstep hf hpick hvisit
    cases hok
  | checked hpick hvisit _ ih =>
    obtain ⟨_, hok, hagree⟩ := hstep hf hpick hvisit
    cases hok
    exact ih hagree

end Flow

namespace TypingContext

/-- The verdicts that the check of a block can have, in whatever order its instructions are
checked. -/
inductive Explored (c : TypingContext) : Bool → Prop
  | params {e : VerifyFault} (h : checkParams c.block.slots c.block.signature.params 0 = .error e) :
      Explored c false
  | decode {e : LocatedFault} (h : OpTable.ofCode c.block.segment.code = .error e) :
      Explored c false
  | enter {table : OpTable} {e : LocatedFault}
      (htable : OpTable.ofCode c.block.segment.code = .ok table)
      (h : Flow.follow table 0 ⟨Array.replicate table.size none, []⟩ (0, []) = .error e) :
      Explored c false
  | flow {table : OpTable} {start : Flow} {verdict : Bool}
      (hparams : checkParams c.block.slots c.block.signature.params 0 = .ok ())
      (htable : OpTable.ofCode c.block.segment.code = .ok table)
      (hstart : Flow.follow table 0 ⟨Array.replicate table.size none, []⟩ (0, []) = .ok start)
      (h : start.Explored c table verdict) : Explored c verdict

variable {c : TypingContext}

/-- Whatever the order, the verdict says whether the block can be typed. Each way to fail
contradicts a typing. -/
theorem Explored.typable_iff {verdict : Bool} (h : c.Explored verdict) :
    verdict = true ↔ c.Typable := by
  cases h with
  | params h =>
    refine ⟨nofun, fun ht => ?_⟩
    rw [checkParams_iff.mpr ⟨ht.params_le, ht.params⟩] at h
    cases h
  | decode h =>
    refine ⟨nofun, fun ht => ?_⟩
    obtain ⟨table, htable⟩ := OpTable.ofCode_ok.mpr ht.sweep
    rw [htable] at h
    cases h
  | enter htable h =>
    refine ⟨nofun, fun ht => ?_⟩
    obtain ⟨assigned, htyping⟩ := ht.typing
    have ha := htyping.assignment htable
    obtain ⟨start, hstart, _⟩ := ha.follow 0 agrees_blank (0, []) ha.start
    rw [hstart] at h
    cases h
  | flow hparams htable hstart h =>
    constructor
    · intro hverdict
      obtain ⟨hinv, hzero, _⟩ := Flow.enter_ok hstart
      obtain ⟨shapes, hkeeps, hclosed⟩ := h.closed hinv hverdict
      obtain ⟨hle, hslots⟩ := checkParams_iff.mp hparams
      exact ⟨hle, hslots, OpTable.ofCode_ok.mp ⟨_, htable⟩, _,
        typing_of_justified htable (hkeeps 0 [] hzero) hclosed⟩
    · intro ht
      obtain ⟨assigned, htyping⟩ := ht.typing
      have ha := htyping.assignment htable
      obtain ⟨start, hstart', hagree⟩ := ha.follow 0 agrees_blank (0, []) ha.start
      rw [hstart] at hstart'
      cases hstart'
      exact h.passes ha hagree

/-- The verifier's own verdict is one of them. -/
theorem shapes_explored (c : TypingContext) : c.Explored c.shapes.isOk := by
  -- once the first instruction is entered, the fuel is enough for all others
  have hsettle : ∀ {table : OpTable} {start : Flow},
      Flow.follow table 0 ⟨Array.replicate table.size none, []⟩ (0, []) = .ok start →
      start.Explored c table (Flow.settle c table table.size start).isOk := by
    intro table start hstart
    obtain ⟨hinv, _, hwork⟩ := Flow.enter_ok hstart
    exact Flow.settle_explored _ _ fun flow' h => (hinv.settle hwork h).2.1
  cases hc : c.shapes with
  | ok _ =>
    simp only [shapes, except_bind_ok, except_mapError_ok] at hc
    obtain ⟨_, hparams, table, htable, start, hstart, flow, hflow, _⟩ := hc
    have hexplored := hsettle hstart
    rw [hflow] at hexplored
    exact .flow hparams htable hstart hexplored
  | error e =>
    simp only [shapes, except_bind_fails, except_mapError_ok, except_mapError_fails] at hc
    rcases hc with ⟨_, hparams, _⟩ | ⟨_, hparams, htable | ⟨table, htable, hc⟩⟩
    · exact .params hparams
    · exact .decode htable
    · rcases hc with hstart | ⟨start, hstart, hflow | ⟨_, _, hpure⟩⟩
      · exact .enter htable hstart
      · have hexplored := hsettle hstart
        rw [hflow] at hexplored
        exact .flow hparams htable hstart hexplored
      · cases hpure

end TypingContext

/-- **Verification is exact.** A block of an artifact is accepted if and only if it can be typed. A
check that takes the instructions of the block in some other order, and the edges of each in some
other order, always comes to this verdict, and to no other. What a reserved name asks of the
signature is not part of this (see `checkReserved`). -/
theorem verification_exact (a : Artifact) (b : Block) :
    ((∃ shapes, TypingContext.shapes ⟨a.blocks, b⟩ = .ok shapes) ↔
      TypingContext.Typable ⟨a.blocks, b⟩) ∧
    ∀ verdict, TypingContext.Explored ⟨a.blocks, b⟩ verdict ↔
      (verdict = true ↔ TypingContext.Typable ⟨a.blocks, b⟩) := by
  refine ⟨TypingContext.shapes_iff_typable, fun verdict => ⟨fun h => h.typable_iff, fun h => ?_⟩⟩
  have hown := TypingContext.shapes_explored ⟨a.blocks, b⟩
  -- two verdicts that stand for the same condition are equal
  have hsame : (TypingContext.shapes ⟨a.blocks, b⟩).isOk = verdict :=
    Bool.eq_iff_iff.mpr (hown.typable_iff.trans h.symm)
  exact hsame ▸ hown

end TypedStack
