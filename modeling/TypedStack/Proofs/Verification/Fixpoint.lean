import TypedStack.Proofs.Verification.Sweep
import TypedStack.Verification.Artifact
/-!
# The shapes that verification records

The verifier is a worklist algorithm, but what it computes does not depend on the order of its work.
Two facts say so. The shapes that a successful check records are closed under the typing rules
(`TypingContext.recorded_closed`): an instruction with a shape has edges, and each edge leads to an
instruction with the shape that it brings. And wherever some assignment of shapes is closed, the
check succeeds (`TypingContext.shapes_ok`). `Artifact.verify_ok` puts the blocks together.

The first rests on the fuel being enough, which `Flow.Grows.work` counts: an edge that adds a
pending instruction also takes away an offset without a shape.

The second does not: a check that is stopped early has found no fault. It only needs that everything
on record agrees with the assignment, so that an edge never brings a shape other than the one
recorded.
-/

set_option autoImplicit false

namespace TypedStack

/-- The shape recorded for an offset. -/
def shapeAt (shapes : Array (Option Shape)) (offset : Nat) : Option Shape := (shapes[offset]?).join

theorem shapeAt_set (shapes : Array (Option Shape)) {offset : Nat} (h : offset < shapes.size)
    (shape : Shape) (o : Nat) :
    shapeAt (shapes.setIfInBounds offset (some shape)) o =
      if offset = o then some shape else shapeAt shapes o := by
  unfold shapeAt
  rw [Array.getElem?_setIfInBounds]
  by_cases ho : offset = o
  · subst ho
    simp [h]
  · simp [ho]

theorem shapeAt_replicate (n o : Nat) : shapeAt (Array.replicate n none) o = none := by
  unfold shapeAt
  rw [Array.getElem?_replicate]
  split <;> rfl

theorem lt_size_of_at? {table : OpTable} {o : Nat} {entry : EncodedOp × Nat}
    (h : table.at? o = some entry) : o < table.size := by
  unfold OpTable.at? at h
  rw [Option.join_eq_some_iff] at h
  exact (Array.getElem?_eq_some_iff.mp h).1

namespace Flow

/-- A visit belongs to the instruction at its offset and carries the shape recorded there. -/
def Belongs (table : OpTable) (flow : Flow) (v : Visit) : Prop :=
  table.at? v.offset = some (v.op, v.next) ∧ shapeAt flow.shapes v.offset = some v.shape

/-- The number of offsets without a shape. -/
def blank (flow : Flow) : Nat := flow.shapes.countP Option.isNone

/-- What taking edges does to the state of the check: recorded shapes stay, and whatever is new is
pending. The sum of what is pending and what is blank stays the same, and it is this sum that the
fuel is for. -/
structure Grows (table : OpTable) (flow flow' : Flow) : Prop where
  size : flow'.shapes.size = flow.shapes.size
  keeps : ∀ o shape, shapeAt flow.shapes o = some shape → shapeAt flow'.shapes o = some shape
  fresh : ∀ o shape, shapeAt flow'.shapes o = some shape →
    shapeAt flow.shapes o = some shape ∨ ∃ v ∈ flow'.pending, v.offset = o
  pending : ∀ v ∈ flow.pending, v ∈ flow'.pending
  visits : ∀ v ∈ flow'.pending, v ∈ flow.pending ∨ flow'.Belongs table v
  work : flow'.pending.length + flow'.blank = flow.pending.length + flow.blank

theorem Grows.refl (table : OpTable) (flow : Flow) : Grows table flow flow :=
  ⟨rfl, fun _ _ h => h, fun _ _ h => .inl h, fun _ h => h, fun _ h => .inl h, rfl⟩

theorem Grows.trans {table : OpTable} {f g h : Flow} (hfg : Grows table f g)
    (hgh : Grows table g h) : Grows table f h where
  size := hgh.size.trans hfg.size
  keeps o shape hs := hgh.keeps o shape (hfg.keeps o shape hs)
  fresh o shape hs := by
    rcases hgh.fresh o shape hs with hs | hv
    · rcases hfg.fresh o shape hs with hs | ⟨v, hv, ho⟩
      · exact .inl hs
      · exact .inr ⟨v, hgh.pending v hv, ho⟩
    · exact .inr hv
  pending v hv := hgh.pending v (hfg.pending v hv)
  visits v hv := by
    rcases hgh.visits v hv with hv | hv
    · rcases hfg.visits v hv with hv | ⟨hat, hs⟩
      · exact .inl hv
      · exact .inr ⟨hat, hgh.keeps _ _ hs⟩
    · exact .inr hv
  work := hgh.work.trans hfg.work

/-- An edge that could be taken leads to the shape that it brings. -/
theorem follow_ok {table : OpTable} {source : Nat} {flow flow' : Flow} {edge : Edge}
    (h : follow table source flow edge = .ok flow') (hsize : flow.shapes.size = table.size) :
    Grows table flow flow' ∧ shapeAt flow'.shapes edge.1 = some edge.2 := by
  obtain ⟨target, shape⟩ := edge
  simp only [follow] at h
  split at h
  · cases h
  · split at h
    · cases h
    · next op next hat =>
      have hlt : target < flow.shapes.size := hsize ▸ lt_size_of_at? hat
      split at h
      · -- the target has a shape already, which has to be this one
        next recorded hrec =>
        split at h
        · next heq =>
          cases h
          exact ⟨.refl _ _, heq ▸ hrec⟩
        · cases h
      · -- the target gets the shape and is pending from now on
        next hnone =>
        cases h
        have hblank : shapeAt flow.shapes target = none := hnone
        have hset := shapeAt_set flow.shapes hlt shape
        refine ⟨⟨by simp, ?_, ?_, fun v hv => List.mem_cons_of_mem _ hv, ?_, ?_⟩, ?_⟩
        · intro o s hs
          rw [hset, if_neg]
          · exact hs
          · rintro rfl
            rw [hblank] at hs
            cases hs
        · intro o s hs
          rw [hset] at hs
          split at hs
          · next heq => exact .inr ⟨_, List.mem_cons_self, heq⟩
          · exact .inl hs
        · intro v hv
          rcases List.mem_cons.mp hv with rfl | hv
          · exact .inr ⟨hat, by rw [hset, if_pos rfl]⟩
          · exact .inl hv
        · -- one more pending, one blank less
          have hget : flow.shapes[target] = none := by
            unfold shapeAt at hblank
            rw [Array.getElem?_eq_getElem hlt] at hblank
            simpa using hblank
          have hpos : 0 < flow.shapes.countP Option.isNone :=
            Array.countP_pos_iff.mpr ⟨none, hget ▸ Array.getElem_mem hlt, rfl⟩
          simp only [blank, List.length_cons]
          rw [Array.setIfInBounds_def, dif_pos hlt, Array.countP_set hlt, hget]
          simp only [Option.isNone_none, Option.isNone_some, if_true]
          simp only [Bool.false_eq_true, if_false]
          omega
        · rw [hset, if_pos rfl]

/-- All edges of an instruction, one after another. A shape recorded by one stays when the next is
taken. -/
theorem follow_all_ok {table : OpTable} {source : Nat} :
    ∀ {edges : List Edge} {flow flow' : Flow}, flow.shapes.size = table.size →
      edges.foldlM (follow table source) flow = .ok flow' →
      Grows table flow flow' ∧ ∀ edge ∈ edges, shapeAt flow'.shapes edge.1 = some edge.2
  | [], flow, _, _, h => by
    cases h
    exact ⟨.refl _ _, by simp⟩
  | edge :: edges, flow, flow', hsize, h => by
    obtain ⟨mid, hf, hrest⟩ := except_bind_ok.mp h
    obtain ⟨hgrow, hedge⟩ := follow_ok hf hsize
    obtain ⟨hgrow', hedges⟩ := follow_all_ok (hgrow.size.trans hsize) hrest
    refine ⟨hgrow.trans hgrow', fun x hx => ?_⟩
    rcases List.mem_cons.mp hx with rfl | hx
    · exact hgrow'.keeps _ _ hedge
    · exact hedges x hx

/-- Checking an instruction is taking the edges of its rule. -/
theorem check_ok {c : TypingContext} {table : OpTable} {flow flow' : Flow} {v : Visit}
    (h : check c table flow v = .ok flow') (hsize : flow.shapes.size = table.size) :
    ∃ edges, c.edges v.op v.next v.shape = .ok edges ∧ Grows table flow flow' ∧
      ∀ edge ∈ edges, shapeAt flow'.shapes edge.1 = some edge.2 := by
  obtain ⟨edges, hedges, hfold⟩ := except_bind_ok.mp h
  exact ⟨edges, except_mapError_ok.mp hedges, follow_all_ok hsize hfold⟩

end Flow

/-- The rule of the instruction at an offset applies to the shape, and every edge leads to the shape
that it brings. -/
def Justified (c : TypingContext) (table : OpTable) (shapes : Array (Option Shape)) (offset : Nat)
    (shape : Shape) : Prop :=
  ∃ op next edges, table.at? offset = some (op, next) ∧ c.edges op next shape = .ok edges ∧
    ∀ edge ∈ edges, shapeAt shapes edge.1 = some edge.2

/-- What holds between two checks: a recorded shape is justified or still pending. -/
structure Flow.Inv (c : TypingContext) (table : OpTable) (flow : Flow) : Prop where
  size : flow.shapes.size = table.size
  visits : ∀ v ∈ flow.pending, flow.Belongs table v
  recorded : ∀ o shape, shapeAt flow.shapes o = some shape →
    (∃ v ∈ flow.pending, v.offset = o) ∨ Justified c table flow.shapes o shape

-- Any pending instruction may be the next, and its edges may be taken in any order: the invariant
-- looks at the pending instructions and at the edges only through membership.
theorem Flow.Inv.visit {c : TypingContext} {table : OpTable} {flow flow' : Flow} {v : Visit}
    {rest : List Visit} {edges order : List Edge} (hi : flow.Inv c table)
    (hpick : flow.pending.Perm (v :: rest)) (hedges : c.edges v.op v.next v.shape = .ok edges)
    (horder : order.Perm edges)
    (h : order.foldlM (Flow.follow table v.offset) ⟨flow.shapes, rest⟩ = .ok flow') :
    flow'.Inv c table := by
  have hsize : (⟨flow.shapes, rest⟩ : Flow).shapes.size = table.size := hi.size
  obtain ⟨hgrow, hall⟩ := Flow.follow_all_ok hsize h
  refine ⟨hgrow.size.trans hsize, ?_, ?_⟩
  · intro w hw
    rcases hgrow.visits w hw with hold | hnew
    · obtain ⟨hat, hs⟩ := hi.visits w (hpick.mem_iff.mpr (List.mem_cons_of_mem _ hold))
      exact ⟨hat, hgrow.keeps _ _ hs⟩
    · exact hnew
  · intro o shape hs
    rcases hgrow.fresh o shape hs with hold | hnew
    · rcases hi.recorded o shape hold with ⟨w, hw, rfl⟩ | ⟨op, next, es, hat, he, hes⟩
      · rcases List.mem_cons.mp (hpick.mem_iff.mp hw) with rfl | hw
        · -- the instruction just checked
          obtain ⟨hat, hv⟩ := hi.visits w (hpick.mem_iff.mpr List.mem_cons_self)
          simp only at hold
          rw [hold] at hv
          cases hv
          exact .inr ⟨w.op, w.next, edges, hat, hedges, fun e he => hall e (horder.mem_iff.mpr he)⟩
        · exact .inl ⟨w, hgrow.pending w hw, rfl⟩
      · exact .inr ⟨op, next, es, hat, he, fun e hm => hgrow.keeps _ _ (hes e hm)⟩
    · exact .inl hnew

/-- The order of the verifier is one of these: the instruction found last comes first. -/
theorem Flow.Inv.check {c : TypingContext} {table : OpTable} {shapes : Array (Option Shape)}
    {v : Visit} {rest : List Visit} {flow' : Flow} (hi : Flow.Inv c table ⟨shapes, v :: rest⟩)
    (h : Flow.check c table ⟨shapes, rest⟩ v = .ok flow') : flow'.Inv c table := by
  obtain ⟨edges, hedges, hfold⟩ := except_bind_ok.mp h
  exact hi.visit (.refl _) (except_mapError_ok.mp hedges) (.refl _) hfold

/-- One unit of fuel for each pending instruction and each offset without a shape is enough to leave
nothing pending. By induction on the fuel; each check uses up a unit, and the sum goes down by
one. -/
theorem Flow.Inv.settle {c : TypingContext} {table : OpTable} :
    ∀ {fuel : Nat} {flow flow' : Flow}, flow.Inv c table →
      flow.pending.length + flow.blank ≤ fuel → Flow.settle c table fuel flow = .ok flow' →
      flow'.Inv c table ∧ flow'.pending = [] ∧
        ∀ o shape, shapeAt flow.shapes o = some shape → shapeAt flow'.shapes o = some shape
  | 0, flow, flow', hi, hfuel, h => by
    cases h
    exact ⟨hi, List.length_eq_zero_iff.mp (by omega), fun _ _ hs => hs⟩
  | fuel + 1, ⟨shapes, []⟩, flow', hi, _, h => by
    cases h
    exact ⟨hi, rfl, fun _ _ hs => hs⟩
  | fuel + 1, ⟨shapes, v :: rest⟩, flow', hi, hfuel, h => by
    simp only [Flow.settle] at h
    split at h
    · cases h
    · next mid hmid =>
      obtain ⟨edges, _, hgrow, _⟩ := Flow.check_ok hmid hi.size
      -- the visit is done, and every new one has taken the place of a blank
      have hwork := hgrow.work
      simp only [Flow.blank, List.length_cons] at hwork hfuel
      obtain ⟨hi', hpending, hkeeps⟩ :=
        (hi.check hmid).settle (by simp only [Flow.blank]; omega) h
      exact ⟨hi', hpending, fun o shape hs => hkeeps o shape (hgrow.keeps o shape hs)⟩

/-- What holds once the first instruction has been entered. -/
theorem Flow.enter_ok {c : TypingContext} {table : OpTable} {start : Flow}
    (h : Flow.follow table 0 ⟨Array.replicate table.size none, []⟩ (0, []) = .ok start) :
    start.Inv c table ∧ shapeAt start.shapes 0 = some [] ∧
      start.pending.length + start.blank ≤ table.size := by
  have hsize : (Array.replicate table.size none : Array (Option Shape)).size = table.size :=
    Array.size_replicate
  obtain ⟨hgrow, hzero⟩ := Flow.follow_ok h hsize
  refine ⟨⟨hgrow.size.trans hsize, ?_, ?_⟩, hzero, ?_⟩
  · intro v hv
    rcases hgrow.visits v hv with hold | hnew
    · simp at hold
    · exact hnew
  · intro o shape hs
    rcases hgrow.fresh o shape hs with hold | hnew
    · rw [shapeAt_replicate] at hold
      cases hold
    · exact .inl hnew
  · have hw := hgrow.work
    simp only [List.length_nil, Flow.blank, Array.countP_replicate, Option.isNone_none,
      if_true] at hw
    simp only [Flow.blank]
    omega

/-! ## Parameters

The parameters of a block are its first slots, which the check goes through one by one. -/

/-- From an index on, each parameter has the type of its slot. In particular there is a slot for
each. -/
theorem checkParams_ok {slots : Array ValueType} :
    ∀ {params : List ValueType} {i : Nat},
      checkParams slots params i = .ok () ↔ ∀ k, k < params.length → slots[i + k]? = params[k]?
  | [], i => by simp [checkParams]
  | t :: params, i => by
    have hcons : (∀ k, k < (t :: params).length → slots[i + k]? = (t :: params)[k]?) ↔
        slots[i]? = some t ∧ ∀ k, k < params.length → slots[i + 1 + k]? = params[k]? := by
      constructor
      · intro h
        refine ⟨by simpa using h 0 (by simp), fun k hk => ?_⟩
        have := h (k + 1) (by simpa using hk)
        rw [Nat.add_assoc, Nat.add_comm 1 k]
        simpa using this
      · rintro ⟨h0, h⟩ k hk
        cases k with
        | zero => simpa using h0
        | succ k =>
          have := h k (by simpa using hk)
          rw [Nat.add_assoc, Nat.add_comm 1 k] at this
          simpa using this
    rw [hcons]
    unfold checkParams
    split
    · next hnone => simp [hnone]
    · next found hfound =>
      split
      · next heq =>
        subst heq
        rw [checkParams_ok]
        simp [hfound]
      · next hne => simp [hfound, hne]

theorem params_isPrefix {slots : Array ValueType} {params : List ValueType} :
    checkParams slots params 0 = .ok () ↔ params <+: slots.toList := by
  rw [checkParams_ok, List.prefix_iff_getElem?]
  constructor
  · intro h i hi
    have := h i hi
    rw [Nat.zero_add] at this
    rw [← List.getElem?_eq_getElem hi, ← this, Array.getElem?_toList]
  · intro h k hk
    rw [Nat.zero_add, ← Array.getElem?_toList, h k hk, List.getElem?_eq_getElem hk]

/-! ## The check of a block

What a successful check knows, and what is enough for a check to succeed. -/

namespace TypingContext

variable {c : TypingContext}

/-- What a successful check has found out. In the end nothing is pending, so every recorded shape is
justified. -/
structure Recorded (c : TypingContext) (table : OpTable) (shapes : Array (Option Shape)) :
    Prop where
  params : c.block.signature.params <+: c.block.slots.toList
  sweep : OpTable.ofCode c.block.segment.code = .ok table
  start : shapeAt shapes 0 = some []
  closed : ∀ o shape, shapeAt shapes o = some shape → Justified c table shapes o shape

/-- **Recorded shapes are closed.** A check that succeeds has recorded the empty shape for the first
instruction, and whatever it has recorded is justified by what else it has recorded. -/
theorem recorded_closed {shapes : Array (Option Shape)} (h : c.shapes = .ok shapes) :
    ∃ table, c.Recorded table shapes := by
  unfold TypingContext.shapes at h
  obtain ⟨_, hparams, h⟩ := except_bind_ok.mp h
  obtain ⟨table, htable, h⟩ := except_bind_ok.mp h
  obtain ⟨start, hstart, h⟩ := except_bind_ok.mp h
  obtain ⟨flow, hflow, h⟩ := except_bind_ok.mp h
  obtain rfl := except_pure_ok.mp h
  obtain ⟨hinv, hzero, hwork⟩ := Flow.enter_ok hstart
  obtain ⟨hinv', hpending, hkeeps⟩ := hinv.settle hwork hflow
  refine ⟨table, ?_, htable, hkeeps 0 [] hzero, ?_⟩
  · exact params_isPrefix.mp (except_mapError_ok.mp hparams)
  · -- nothing is pending, so every shape is justified
    intro o shape hs
    rcases hinv'.recorded o shape hs with ⟨v, hv, _⟩ | hj
    · rw [hpending] at hv
      cases hv
    · exact hj

/-- An assignment of shapes to offsets that the typing rules allow. -/
structure Assignment (c : TypingContext) (table : OpTable) (assigned : Nat → Shape → Prop) :
    Prop where
  start : assigned 0 []
  unique : ∀ {o s s'}, assigned o s → assigned o s' → s = s'
  closed : ∀ {o s}, assigned o s → ∃ op next edges, table.at? o = some (op, next) ∧
    c.edges op next s = .ok edges ∧ ∀ edge ∈ edges, assigned edge.1 edge.2

section

variable {table : OpTable} {assigned : Nat → Shape → Prop}

/-- The check never records a shape that is not assigned. -/
def Agrees (table : OpTable) (assigned : Nat → Shape → Prop) (flow : Flow) : Prop :=
  flow.shapes.size = table.size ∧
    (∀ o s, shapeAt flow.shapes o = some s → assigned o s) ∧
    ∀ v ∈ flow.pending, table.at? v.offset = some (v.op, v.next) ∧ assigned v.offset v.shape

/-- At the beginning there is nothing to disagree. -/
theorem agrees_blank : Agrees table assigned ⟨Array.replicate table.size none, []⟩ := by
  refine ⟨Array.size_replicate, fun o s hs => ?_, by simp⟩
  rw [shapeAt_replicate] at hs
  cases hs

/-- An edge that the assignment allows can be taken. Its target is an instruction, and a shape
recorded for it is the assigned one, which is unique. -/
theorem Assignment.follow (ha : c.Assignment table assigned) {flow : Flow} (source : Nat)
    (hf : Agrees table assigned flow) (edge : Edge) (he : assigned edge.1 edge.2) :
    ∃ flow', Flow.follow table source flow edge = .ok flow' ∧ Agrees table assigned flow' := by
  obtain ⟨target, shape⟩ := edge
  obtain ⟨hsize, hshapes, hvisits⟩ := hf
  obtain ⟨op, next, _, hat, _⟩ := ha.closed he
  have hlt := lt_size_of_at? hat
  have hin : ¬ target = table.size := by omega
  simp only [Flow.follow, if_neg hin, hat]
  cases hrec : (flow.shapes[target]?).join with
  | some recorded =>
    -- what is recorded is assigned, so the two shapes agree
    have heq : recorded = shape := ha.unique (hshapes target recorded hrec) he
    exact ⟨flow, by simp [heq], hsize, hshapes, hvisits⟩
  | none =>
    refine ⟨_, rfl, by simpa using hsize, ?_, ?_⟩
    · intro o s hs
      rw [shapeAt_set _ (hsize ▸ hlt)] at hs
      split at hs
      · next heq =>
        cases hs
        exact heq ▸ he
      · exact hshapes o s hs
    · intro v hv
      rcases List.mem_cons.mp hv with rfl | hv
      · exact ⟨hat, he⟩
      · exact hvisits v hv

theorem Assignment.follow_all (ha : c.Assignment table assigned) (source : Nat) :
    ∀ {edges : List Edge} {flow : Flow}, Agrees table assigned flow →
      (∀ edge ∈ edges, assigned edge.1 edge.2) →
      ∃ flow', edges.foldlM (Flow.follow table source) flow = .ok flow' ∧
        Agrees table assigned flow'
  | [], flow, hf, _ => ⟨flow, rfl, hf⟩
  | edge :: edges, flow, hf, he => by
    obtain ⟨mid, hmid, hagree⟩ := ha.follow source hf edge (he edge List.mem_cons_self)
    obtain ⟨flow', hrest, hagree'⟩ :=
      ha.follow_all source hagree fun e hm => he e (List.mem_cons_of_mem _ hm)
    exact ⟨flow', except_bind_ok.mpr ⟨mid, hmid, hrest⟩, hagree'⟩

/-- The check comes upon no fault, whatever the fuel. -/
theorem Assignment.settle (ha : c.Assignment table assigned) :
    ∀ (fuel : Nat) {flow : Flow}, Agrees table assigned flow →
      ∃ flow', Flow.settle c table fuel flow = .ok flow'
  | 0, flow, _ => ⟨flow, rfl⟩
  | fuel + 1, ⟨shapes, []⟩, _ => ⟨_, rfl⟩
  | fuel + 1, ⟨shapes, v :: rest⟩, ⟨hsize, hshapes, hvisits⟩ => by
    obtain ⟨hat, hv⟩ := hvisits v List.mem_cons_self
    obtain ⟨op, next, edges, hat', hedges, hall⟩ := ha.closed hv
    rw [hat] at hat'
    cases hat'
    have hrest : Agrees table assigned ⟨shapes, rest⟩ :=
      ⟨hsize, hshapes, fun w hw => hvisits w (List.mem_cons_of_mem _ hw)⟩
    obtain ⟨mid, hmid, hagree⟩ := ha.follow_all v.offset hrest hall
    have hcheck : Flow.check c table ⟨shapes, rest⟩ v = .ok mid :=
      except_bind_ok.mpr ⟨edges, except_mapError_ok.mpr hedges, hmid⟩
    obtain ⟨flow', hflow⟩ := ha.settle fuel hagree
    exact ⟨flow', by simpa only [Flow.settle, hcheck] using hflow⟩

end

/-- **An assignment is enough.** Where one exists, the check of the block succeeds. -/
theorem shapes_ok {table : OpTable} {assigned : Nat → Shape → Prop}
    (hparams : c.block.signature.params <+: c.block.slots.toList)
    (htable : OpTable.ofCode c.block.segment.code = .ok table)
    (ha : c.Assignment table assigned) : ∃ shapes, c.shapes = .ok shapes := by
  obtain ⟨start, hstart, hagree⟩ := ha.follow 0 agrees_blank (0, []) ha.start
  obtain ⟨flow, hflow⟩ := ha.settle table.size hagree
  refine ⟨flow.shapes, ?_⟩
  unfold TypingContext.shapes
  simp only [except_bind_ok]
  exact ⟨(), except_mapError_ok.mpr (params_isPrefix.mpr hparams), table, htable, start, hstart,
    flow, hflow, rfl⟩

end TypingContext

/-! ## The check of an artifact

Blocks are checked one after another, and their names are collected on the way. -/

namespace Artifact

variable {a : Artifact}

/-- A block is verified if its name allows for its signature and its code has shapes. -/
theorem verifyBlock_ok {b : Block} :
    a.verifyBlock b = .ok () ↔
      checkReserved b = .ok () ∧ ∃ shapes, TypingContext.shapes ⟨a.blocks, b⟩ = .ok shapes := by
  simp only [verifyBlock, except_bind_ok, except_mapError_ok, except_discard_ok]
  constructor
  · rintro ⟨_, hreserved, hshapes⟩
    exact ⟨hreserved, hshapes⟩
  · rintro ⟨hreserved, hshapes⟩
    exact ⟨(), hreserved, hshapes⟩

/-- A block comes next if its name is new and it is verified. -/
theorem verifyNext_ok {seen seen' : Std.HashSet String} {b : Block} :
    a.verifyNext seen b = .ok seen' ↔
      b.name ∉ seen ∧ a.verifyBlock b = .ok () ∧ seen' = seen.insert b.name := by
  simp only [verifyNext, except_throw_bind, except_guard_ok, except_bind_ok, except_pure_ok,
    Std.HashSet.contains_iff_mem]
  constructor
  · rintro ⟨hname, _, hb, rfl⟩
    exact ⟨hname, hb, rfl⟩
  · rintro ⟨hname, hb, rfl⟩
    exact ⟨hname, (), hb, rfl⟩

/-- The rest of the blocks, with the names seen so far. By induction on the blocks. -/
theorem verifyAll_ok :
    ∀ {bs : List Block} {seen : Std.HashSet String},
      (∃ seen', bs.foldlM a.verifyNext seen = .ok seen') ↔
        (bs.map Block.name).Nodup ∧ (∀ b ∈ bs, b.name ∉ seen) ∧ ∀ b ∈ bs, a.verifyBlock b = .ok ()
  | [], seen => by simp [pure, Except.pure]
  | b :: bs, seen => by
    have hcons : (∃ seen', (b :: bs).foldlM a.verifyNext seen = .ok seen') ↔
        b.name ∉ seen ∧ a.verifyBlock b = .ok () ∧
          ∃ seen', bs.foldlM a.verifyNext (seen.insert b.name) = .ok seen' := by
      simp only [List.foldlM_cons, except_bind_ok, verifyNext_ok]
      constructor
      · rintro ⟨seen', mid, ⟨hname, hb, rfl⟩, h⟩
        exact ⟨hname, hb, seen', h⟩
      · rintro ⟨hname, hb, seen', h⟩
        exact ⟨seen', _, ⟨hname, hb, rfl⟩, h⟩
    rw [hcons, verifyAll_ok]
    simp only [List.map_cons, List.nodup_cons, List.mem_map, List.mem_cons, forall_eq_or_imp,
      Std.HashSet.mem_insert, not_or, beq_iff_eq]
    grind

/-- An artifact is verified if its blocks are, and have distinct names. -/
theorem verify_ok :
    a.verify = .ok () ↔
      (a.blocks.toList.map Block.name).Nodup ∧ ∀ b ∈ a.blocks, a.verifyBlock b = .ok () := by
  unfold verify
  rw [except_discard_ok, ← Array.foldlM_toList, verifyAll_ok]
  simp

end Artifact

end TypedStack
