import Mathlib.Data.List.Nodup
import Mathlib.Data.List.Perm.Subperm
import TypedStack.Proofs.Verification.Fixpoint
/-!
# Verification ends

The verifier sweeps over the code once and then works on pending instructions until none is left.
Here its work is cut into the smallest pieces, `Stage.Reached`: taking one edge, and taking up one
pending instruction. No bound on the work is part of it. What holds at every stage (`Stage.Orderly`)
gives the bound: an offset becomes pending once, so there are no more visits than instructions, and
whatever is taken up has been decoded and has a shape.

The check that the program runs, which does count, goes through these stages to their end
(`TypingContext.shapes_ends`), so the count never cuts it short.
-/

set_option autoImplicit false

namespace TypedStack

/-! ## The sweep

Decoding goes on to a higher offset each time, so the sweep comes to an end by itself. -/

namespace OpTable

/-- A sweep comes to the end of the code or to a place where nothing can be decoded. -/
theorem fill_ends {code : Array UInt8} {offset : Nat} {table : OpTable}
    (hle : offset ≤ code.size) :
    ∃ o, Sweep code offset o ∧
      (o = code.size ∧ (∃ table', fill code offset table = .ok table') ∨
        o < code.size ∧ ∃ e, Segment.decodeAt code o = .error e ∧
          fill code offset table = .error ⟨o, .decode e⟩) := by
  fun_induction fill code offset table with
  | case1 offset table hlt e he => exact ⟨offset, .refl _, .inr ⟨hlt, e, he, rfl⟩⟩
  | case2 offset table hlt op next hd ih =>
    obtain ⟨o, hsweep, hend⟩ := ih (Segment.decodeAt_bounds hd).2
    exact ⟨o, .step hd hsweep, hend⟩
  | case3 offset table hge =>
    obtain rfl : offset = code.size := by omega
    exact ⟨_, .refl _, .inl ⟨rfl, table, rfl⟩⟩

/-- The offsets at which the table has an instruction. -/
def boundaries (table : OpTable) : List Nat :=
  (List.range table.size).filter fun o => (table.at? o).isSome

theorem mem_boundaries {table : OpTable} {o : Nat} {entry : EncodedOp × Nat}
    (h : table.at? o = some entry) : o ∈ table.boundaries := by
  unfold boundaries
  rw [List.mem_filter, List.mem_range]
  exact ⟨lt_size_of_at? h, by simp [h]⟩

end OpTable

/-! ## Stages of the work

The smallest steps of the worklist algorithm, without a count. -/

/-- How far the verifier has come with a block: the instructions taken up, the latest first, the
edges of the latest that are still to be taken, and what is recorded and pending. -/
structure Stage where
  done : List Visit
  todo : List Edge
  flow : Flow

namespace Stage

variable {c : TypingContext} {table : OpTable}

/-- Where the edges come from once some instructions have been taken up: from the latest of these.
The way into the block counts as one from offset zero. -/
def source (done : List Visit) : Nat := (done.head?.map Visit.offset).getD 0

/-- The stages that the verifier comes to. -/
inductive Reached (c : TypingContext) (table : OpTable) : Stage → Prop
  | enter : Reached c table ⟨[], [(0, [])], ⟨Array.replicate table.size none, []⟩⟩
  | follow {s : Stage} {edge : Edge} {rest : List Edge} {flow : Flow} (h : Reached c table s)
      (htodo : s.todo = edge :: rest)
      (hedge : Flow.follow table (source s.done) s.flow edge = .ok flow) :
      Reached c table ⟨s.done, rest, flow⟩
  | visit {s : Stage} {v : Visit} {rest : List Visit} {edges : List Edge}
      (h : Reached c table s) (htodo : s.todo = []) (hpending : s.flow.pending = v :: rest)
      (hedges : c.edges v.op v.next v.shape = .ok edges) :
      Reached c table ⟨v :: s.done, edges, ⟨s.flow.shapes, rest⟩⟩

/-- There is nothing more to do at a stage, and this is the outcome: the shapes if nothing is left,
and otherwise the fault of the next edge or instruction. -/
inductive Ends (c : TypingContext) (table : OpTable) (s : Stage) :
    Except LocatedFault (Array (Option Shape)) → Prop
  | settled (htodo : s.todo = []) (hpending : s.flow.pending = []) :
      Ends c table s (.ok s.flow.shapes)
  | blocked {edge : Edge} {rest : List Edge} {e : LocatedFault} (htodo : s.todo = edge :: rest)
      (h : Flow.follow table (source s.done) s.flow edge = .error e) : Ends c table s (.error e)
  | refused {v : Visit} {rest : List Visit} {fault : VerifyFault} (htodo : s.todo = [])
      (hpending : s.flow.pending = v :: rest)
      (h : c.edges v.op v.next v.shape = .error fault) :
      Ends c table s (.error ⟨v.offset, fault⟩)

/-! ## What holds at every stage

An offset becomes pending when it gets its shape, and it gets a shape only once. -/

/-- An instruction that became pending is either still pending or was taken up. All of these have
different offsets, were decoded there, and have a shape on record. -/
structure Orderly (table : OpTable) (s : Stage) : Prop where
  size : s.flow.shapes.size = table.size
  once : ((s.done ++ s.flow.pending).map Visit.offset).Nodup
  known : ∀ v ∈ s.done ++ s.flow.pending, s.flow.Belongs table v

end Stage

/-- What taking an edge does: nothing at a target that has the shape already, and otherwise it
records the shape and makes the target pending. -/
theorem Flow.follow_cases {table : OpTable} {source : Nat} {flow flow' : Flow} {edge : Edge}
    (h : Flow.follow table source flow edge = .ok flow') :
    flow' = flow ∨ ∃ op next, table.at? edge.1 = some (op, next) ∧
      shapeAt flow.shapes edge.1 = none ∧
      flow' = ⟨flow.shapes.setIfInBounds edge.1 (some edge.2),
        ⟨edge.1, op, next, edge.2⟩ :: flow.pending⟩ := by
  obtain ⟨target, shape⟩ := edge
  simp only [Flow.follow] at h
  split at h
  · cases h
  · split at h
    · cases h
    · next op next hat =>
      split at h
      · split at h
        · exact .inl (Except.ok.inj h).symm
        · cases h
      · next hnone => exact .inr ⟨op, next, hat, hnone, (Except.ok.inj h).symm⟩

namespace Stage

variable {c : TypingContext} {table : OpTable} {s : Stage}

/-- Taking an edge keeps this. A target that becomes pending had no shape, and everything that was
ever pending has one, so its offset is new. -/
theorem Orderly.follow (h : s.Orderly table) {source : Nat} {edge : Edge} {todo : List Edge}
    {flow : Flow} (hedge : Flow.follow table source s.flow edge = .ok flow) :
    Orderly table ⟨s.done, todo, flow⟩ := by
  rcases Flow.follow_cases hedge with rfl | ⟨op, next, hat, hblank, rfl⟩
  · exact ⟨h.size, h.once, h.known⟩
  · have hlt : edge.1 < s.flow.shapes.size := h.size ▸ lt_size_of_at? hat
    -- whatever has become pending before has a shape, and this offset has none yet
    have hfresh : ∀ v ∈ s.done ++ s.flow.pending, edge.1 ≠ v.offset := by
      intro v hv heq
      have hshape := (h.known v hv).2
      rw [← heq, hblank] at hshape
      cases hshape
    refine ⟨by simpa using h.size, ?_, ?_⟩
    · show ((s.done ++ ⟨edge.1, op, next, edge.2⟩ :: s.flow.pending).map Visit.offset).Nodup
      rw [(List.perm_middle.map Visit.offset).nodup_iff, List.map_cons, List.nodup_cons]
      refine ⟨fun hmem => ?_, h.once⟩
      obtain ⟨v, hv, heq⟩ := List.mem_map.mp hmem
      exact hfresh v hv heq.symm
    · intro v hv
      rcases List.mem_cons.mp (List.perm_middle.mem_iff.mp hv) with rfl | hv
      · exact ⟨hat, by rw [shapeAt_set _ hlt, if_pos rfl]⟩
      · obtain ⟨hv', hshape⟩ := h.known v hv
        exact ⟨hv', by rw [shapeAt_set _ hlt, if_neg (hfresh v hv), hshape]⟩

/-- Taking up an instruction only moves it from what is pending to what is done. -/
theorem Orderly.visit (h : s.Orderly table) {v : Visit} {rest : List Visit} {todo : List Edge}
    (hpending : s.flow.pending = v :: rest) :
    Orderly table ⟨v :: s.done, todo, ⟨s.flow.shapes, rest⟩⟩ := by
  have hsame : (s.done ++ s.flow.pending).Perm (v :: s.done ++ rest) := by
    rw [hpending]
    exact List.perm_middle
  refine ⟨h.size, (hsame.map Visit.offset).nodup_iff.mp h.once, fun w hw => ?_⟩
  exact h.known w (hsame.mem_iff.mpr hw)

theorem Reached.orderly (h : Reached c table s) : s.Orderly table := by
  induction h with
  | enter => exact ⟨Array.size_replicate, List.nodup_nil, by simp⟩
  | follow _ _ hedge ih => exact ih.follow hedge
  | visit _ _ hpending _ ih => exact ih.visit hpending

/-- There are no more visits, made and to be made, than instructions: their offsets are different,
and at each of them there is an entry in the table. -/
theorem Orderly.visits_le (h : s.Orderly table) :
    s.done.length + s.flow.pending.length ≤ table.boundaries.length := by
  have hsub : (s.done ++ s.flow.pending).map Visit.offset ⊆ table.boundaries := by
    intro o ho
    obtain ⟨v, hv, rfl⟩ := List.mem_map.mp ho
    exact OpTable.mem_boundaries (h.known v hv).1
  have hle := (h.once.subperm hsub).length_le
  simpa using hle

/-! ## The end of the work

The check that counts, followed through the stages. It stops because nothing is left or because of a
fault, and never because of the count. -/

/-- Taking the edges of one instruction goes through stages, up to the last edge or to the first
that cannot be taken. -/
theorem Reached.follow_all {edges : List Edge} {done : List Visit} {flow : Flow}
    (h : Reached c table ⟨done, edges, flow⟩) :
    (∀ flow', edges.foldlM (Flow.follow table (source done)) flow = .ok flow' →
      Reached c table ⟨done, [], flow'⟩) ∧
    ∀ e, edges.foldlM (Flow.follow table (source done)) flow = .error e →
      ∃ s, Reached c table s ∧ s.Ends c table (.error e) := by
  induction edges generalizing flow with
  | nil =>
    refine ⟨fun flow' hfold => ?_, fun e hfold => ?_⟩
    · cases hfold
      exact h
    · cases hfold
  | cons edge edges ih =>
    rw [List.foldlM_cons]
    cases hedge : Flow.follow table (source done) flow edge with
    | error e =>
      refine ⟨fun flow' hfold => ?_, fun e' hfold => ?_⟩
      · cases hfold
      · cases hfold
        exact ⟨_, h, .blocked rfl hedge⟩
    | ok mid => exact ih (h.follow rfl hedge)

/-- The count of the check is as much as there is to do, so it never stops before the end. -/
theorem Reached.settle {fuel : Nat} {done : List Visit} {flow : Flow}
    (h : Reached c table ⟨done, [], flow⟩) (hfuel : flow.pending.length + flow.blank ≤ fuel) :
    ∃ s, Reached c table s ∧
      s.Ends c table ((Flow.settle c table fuel flow).map Flow.shapes) := by
  induction fuel generalizing done flow with
  | zero =>
    have hpending : flow.pending = [] := List.length_eq_zero_iff.mp (by omega)
    exact ⟨_, h, .settled rfl hpending⟩
  | succ fuel ih =>
    obtain ⟨shapes, pending⟩ := flow
    cases pending with
    | nil => exact ⟨_, h, .settled rfl rfl⟩
    | cons v rest =>
      cases hedges : c.edges v.op v.next v.shape with
      | error fault =>
        have hcheck : Flow.check c table ⟨shapes, rest⟩ v = .error ⟨v.offset, fault⟩ := by
          rw [Flow.check, hedges]
          rfl
        simp only [Flow.settle, hcheck]
        exact ⟨_, h, .refused rfl rfl hedges⟩
      | ok edges =>
        have hcheck : Flow.check c table ⟨shapes, rest⟩ v =
            edges.foldlM (Flow.follow table v.offset) ⟨shapes, rest⟩ := by
          rw [Flow.check, hedges]
          rfl
        have hvisit : Reached c table ⟨v :: done, edges, ⟨shapes, rest⟩⟩ := h.visit rfl rfl hedges
        obtain ⟨hgoes, hfails⟩ := hvisit.follow_all
        cases hfold : edges.foldlM (Flow.follow table v.offset) ⟨shapes, rest⟩ with
        | error e =>
          simp only [Flow.settle, hcheck, hfold]
          exact hfails e hfold
        | ok mid =>
          -- the visit is done, and every new one has taken the place of a blank
          obtain ⟨hgrow, -⟩ := Flow.follow_all_ok hvisit.orderly.size hfold
          have hwork := hgrow.work
          simp only [Flow.blank, List.length_cons] at hwork hfuel
          simp only [Flow.settle, hcheck, hfold]
          exact ih (hgoes mid hfold) (by simp only [Flow.blank]; omega)

end Stage

/-- Where the code can be decoded, the check of a block goes through stages to an end, and its
outcome is the one there. -/
theorem TypingContext.shapes_ends {c : TypingContext} {table : OpTable}
    (hparams : checkParams c.block.slots c.block.signature.params 0 = .ok ())
    (htable : OpTable.ofCode c.block.segment.code = .ok table) :
    ∃ s, Stage.Reached c table s ∧ s.Ends c table c.shapes := by
  have hshapes : c.shapes =
      (Flow.follow table 0 ⟨Array.replicate table.size none, []⟩ (0, []) >>= fun start =>
        (Flow.settle c table table.size start).map Flow.shapes) := by
    rw [TypingContext.shapes, hparams, htable]
    rfl
  rw [hshapes]
  cases hstart : Flow.follow table 0 ⟨Array.replicate table.size none, []⟩ (0, []) with
  | error e => exact ⟨_, .enter, .blocked rfl hstart⟩
  | ok start =>
    obtain ⟨-, -, hwork⟩ := Flow.enter_ok (c := c) hstart
    have hentered : Stage.Reached c table ⟨[], [], start⟩ := .follow .enter rfl hstart
    exact hentered.settle hwork

/-! ## Every artifact -/

/-- Verification ends on every block of every artifact. Decoding moves on inside the code, so the
sweep comes to the end of the code or to what cannot be decoded. At every stage of the work on what
was decoded, no offset has become pending twice, there are no more visits than instructions, and
what is pending was decoded and has a shape; and some stage is the end, with the outcome of the
check. -/
theorem verification_ends (a : Artifact) (b : Block) :
    (∀ offset op next, b.segment.decode offset = .ok (op, next) →
      offset < next ∧ next ≤ b.segment.code.size) ∧
    (∃ o, Sweep b.segment.code 0 o ∧
      (o = b.segment.code.size ∧ (∃ table, OpTable.ofCode b.segment.code = .ok table) ∨
        o < b.segment.code.size ∧ ∃ e, b.segment.decode o = .error e ∧
          OpTable.ofCode b.segment.code = .error ⟨o, .decode e⟩)) ∧
    ∀ table, OpTable.ofCode b.segment.code = .ok table →
      (∀ s, Stage.Reached ⟨a.blocks, b⟩ table s → s.Orderly table ∧
        s.done.length + s.flow.pending.length ≤ table.boundaries.length) ∧
      (checkParams b.slots b.signature.params 0 = .ok () →
        ∃ s, Stage.Reached ⟨a.blocks, b⟩ table s ∧
          s.Ends ⟨a.blocks, b⟩ table (TypingContext.shapes ⟨a.blocks, b⟩)) := by
  refine ⟨fun offset op next h => Segment.decodeAt_bounds h, OpTable.fill_ends (Nat.zero_le _), ?_⟩
  intro table htable
  refine ⟨fun s hs => ⟨hs.orderly, hs.orderly.visits_le⟩, fun hparams => ?_⟩
  exact TypingContext.shapes_ends hparams htable

/-- A block that reads truth values for ever: it jumps back whether they are true or not. -/
def loopingBlock : Block where
  name := "loop"
  signature := ⟨[], none⟩
  slots := #[]
  segment := { code := #[0xF1, 0x04, 0x42, 0, 0, 0x40, 0, 0] }

theorem loopingBlock_table :
    OpTable.ofCode loopingBlock.segment.code = .ok #[some (.read .bool, 2), none,
      some (.jumpIfTrue 0, 5), none, none, some (.jump 0, 8), none, none] := by
  decide +kernel

/-- The check of the endless loop ends, with three visits at most. -/
theorem verification_ends_looping :
    ∃ table s, OpTable.ofCode loopingBlock.segment.code = .ok table ∧
      Stage.Reached ⟨#[loopingBlock], loopingBlock⟩ table s ∧
      s.Ends ⟨#[loopingBlock], loopingBlock⟩ table
        (TypingContext.shapes ⟨#[loopingBlock], loopingBlock⟩) ∧
      s.Orderly table ∧ s.done.length + s.flow.pending.length ≤ 3 := by
  obtain ⟨-, -, hwork⟩ := verification_ends ⟨"loop", #[loopingBlock]⟩ loopingBlock
  obtain ⟨hstages, hend⟩ := hwork _ loopingBlock_table
  obtain ⟨s, hs, houtcome⟩ := hend rfl
  obtain ⟨horderly, hle⟩ := hstages s hs
  exact ⟨_, s, loopingBlock_table, hs, houtcome, horderly, hle⟩

end TypedStack
