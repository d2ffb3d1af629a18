import TypedStack.Proofs.Machine.Frames
/-!
# Calls and their returns

A caller waits while the block that it called runs, and while what that block calls in turn does.
All of them write into the same two arrays, and nothing is known of their code. A state that waits
stays at the bottom of both arrays all the same (`State.Above`): one instruction keeps it there, or
is the return that brings it back.

How long a call takes is not bounded, so the return is found by counting frames. As long as there
are more frames than before the call, the caller waits; the first time there are not, it goes on.
-/

set_option autoImplicit false

namespace TypedStack

/-- What a frame keeps as long as it is there. -/
def Frame.site (f : Frame) : Block × Nat × Nat := (f.block, f.localsBase, f.stackBase)

/-- The sites of all frames, the outermost first. -/
def State.sites (s : State) : List (Block × Nat × Nat) := s.frames.map Frame.site

/-- The state `w` waits under frames at other sites: the first is that of the block `callee`, and
begins where the slots and operands of `w` end, and the others do not reach below it. -/
def State.Under (w : State) (callee : Block) (sites : List (Block × Nat × Nat)) : Prop :=
  ∃ inner, sites = w.sites ++ (callee, w.locals.size, w.operands.size) :: inner ∧
    ∀ x ∈ inner, w.locals.size ≤ x.2.1 ∧ w.operands.size ≤ x.2.2

/-- A state runs above `w`, which waits for a frame of the block `callee`: its frames come first,
and its slots and operands are still at the bottom of both arrays. -/
structure State.Above (w : State) (callee : Block) (u : State) : Prop where
  callers : w.frames <+: u.callers.toList
  sites : w.Under callee u.sites
  locals : w.locals.toList <+: u.locals.toList
  operands : w.operands.toList <+: u.operands.toList

namespace State

variable {w u : State} {callee : Block}

theorem sites_eq (s : State) : s.sites = s.callers.toList.map Frame.site ++ [s.frame.site] := by
  simp [sites, frames]

namespace Above

theorem depth (h : w.Above callee u) : w.callers.size < u.callers.size := by
  have hle := h.callers.length_le
  rw [State.frames, List.length_append, Array.length_toList, Array.length_toList] at hle
  exact hle

/-- The innermost frame is the one that was called, or was begun since. In the first case it begins
where the caller ends, and leaving it uncovers exactly what waits. In the second there is another
frame between. -/
theorem innermost (h : w.Above callee u) :
    u.callers.toList = w.frames ∧ u.frame.site = (callee, w.locals.size, w.operands.size) ∨
    w.frames <+: u.callers.toList.dropLast ∧ w.Under callee (u.callers.toList.map Frame.site) ∧
      w.locals.size ≤ u.frame.localsBase ∧ w.operands.size ≤ u.frame.stackBase := by
  obtain ⟨inner, hsites, hinner⟩ := h.sites
  rw [sites_eq] at hsites
  rcases List.eq_nil_or_concat inner with rfl | ⟨below, x, rfl⟩
  · obtain ⟨hcallers, hframe⟩ := List.append_inj' hsites rfl
    refine .inl ⟨?_, List.singleton_inj.mp hframe⟩
    have hlength := congrArg List.length hcallers
    rw [State.sites, List.length_map, List.length_map] at hlength
    exact (h.callers.eq_of_length hlength.symm).symm
  · rw [List.concat_eq_append, ← List.cons_append, ← List.append_assoc] at hsites
    obtain ⟨hcallers, hframe⟩ := List.append_inj' hsites rfl
    have hbases : w.locals.size ≤ u.frame.site.2.1 ∧ w.operands.size ≤ u.frame.site.2.2 := by
      rw [List.singleton_inj.mp hframe]
      exact hinner x (by simp)
    refine .inr ⟨?_, ⟨below, hcallers, fun y hy => hinner y (by simp [hy])⟩, hbases⟩
    refine List.prefix_of_prefix_length_le h.callers (List.dropLast_prefix _) ?_
    have hlength := congrArg List.length hcallers
    rw [State.sites, List.length_map, List.length_append, List.length_map, List.length_cons]
      at hlength
    rw [List.length_dropLast]
    omega

theorem bases (h : w.Above callee u) :
    w.locals.size ≤ u.frame.localsBase ∧ w.operands.size ≤ u.frame.stackBase := by
  rcases h.innermost with ⟨-, hsite⟩ | ⟨-, -, hbases⟩
  · simp only [Frame.site, Prod.mk.injEq] at hsite
    obtain ⟨-, hlocals, hoperands⟩ := hsite
    exact ⟨Nat.le_of_eq hlocals.symm, Nat.le_of_eq hoperands.symm⟩
  · exact hbases

/-! ## One step

The three effects that go on, for a state that runs above another. -/

theorem goOn (h : w.Above callee u) (ip : Nat) (console : Console) {locals operands : Array Value}
    (hlocals : w.locals.toList <+: locals.toList)
    (hoperands : w.operands.toList <+: operands.toList) :
    w.Above callee ⟨console, { u.frame with ip }, u.callers, locals, operands⟩ := by
  refine ⟨h.callers, ?_, hlocals, hoperands⟩
  have hsites := h.sites
  rw [sites_eq] at hsites ⊢
  exact hsites

theorem call {m : Machine} (h : w.Above callee u) {index next : Nat} {f : Frame}
    {locals operands : Array Value}
    (hb : m.Begins index (u.callers.size + 1) u.frame.stackBase u.locals u.operands f locals
      operands) :
    w.Above callee
      ⟨u.console, f, u.callers.push { u.frame with ip := next }, locals, operands⟩ := by
  have hkept : w.operands.toList <+: operands.toList := by
    refine List.prefix_of_prefix_length_le h.operands ?_ ?_
    · rw [hb.left, ← Array.shrink_eq_take, Array.toList_shrink]
      exact List.take_prefix _ _
    · exact Nat.le_trans h.bases.2 hb.floor_le
  refine ⟨?_, ?_, h.locals.trans hb.behind, hkept⟩
  · rw [Array.toList_push]
    exact h.callers.trans (List.prefix_append _ _)
  · obtain ⟨inner, hsites, hinner⟩ := h.sites
    refine ⟨inner ++ [f.site], ?_, ?_⟩
    · rw [sites_eq] at hsites ⊢
      rw [Array.toList_push, List.map_append, ← List.cons_append, ← List.append_assoc, ← hsites]
      rfl
    · intro x hx
      rcases List.mem_append.mp hx with hx | hx
      · exact hinner x hx
      · rw [List.mem_singleton.mp hx]
        refine ⟨?_, ?_⟩
        · show w.locals.size ≤ f.localsBase
          rw [hb.localsBase]
          exact h.locals.length_le
        · show w.operands.size ≤ f.stackBase
          rw [hb.stackBase]
          exact hkept.length_le

/-- The innermost frame is left for another that was begun since the call. -/
theorem leave (h : w.Above callee u) {caller : Frame} (hcaller : u.callers.back? = some caller)
    (hdeeper : w.frames <+: u.callers.toList.dropLast)
    (hsites : w.Under callee (u.callers.toList.map Frame.site)) {operands : Array Value}
    (hoperands : w.operands.toList <+: operands.toList) :
    w.Above callee
      ⟨u.console, caller, u.callers.pop, u.locals.shrink u.frame.localsBase, operands⟩ := by
  refine ⟨?_, ?_, ?_, hoperands⟩
  · rw [Array.toList_pop]
    exact hdeeper
  · obtain ⟨below, hbelow⟩ := Array.back?_eq_some_iff.mp hcaller
    rw [hbelow, Array.toList_push, List.map_append] at hsites
    rw [sites_eq, hbelow, Array.pop_push]
    exact hsites
  · rw [Array.toList_shrink]
    exact List.prefix_take_iff.mpr ⟨h.locals, h.bases.1⟩

end Above

end State

/-- A state as it waits, to go on at the offset `next`, for a block that it has called. -/
def State.waiting (s : State) (next : Nat) (callee : Block) : State :=
  { s with
    frame := { s.frame with ip := next }
    operands := s.operands.take (s.operands.size - callee.signature.params.length) }

namespace Machine

variable {m : Machine} {w u u' : State} {callee : Block}

theorem pushAny_eq {v : Option Value} {operands operands' : Array Value}
    (h : m.pushAny operands v = .ok operands') : operands' = operands ++ v.toList.toArray := by
  cases v with
  | none =>
    cases h
    simp
  | some v =>
    obtain ⟨rfl, -⟩ := push_ok h
    simp

/-- Cutting an array off where a front part of it ends leaves that part. -/
theorem shrink_of_isPrefix {values kept : Array Value} (h : kept.toList <+: values.toList) :
    values.shrink kept.size = kept := by
  apply Array.toList_inj.mp
  rw [Array.toList_shrink]
  exact (List.prefix_iff_eq_take.mp h).symm

/-- The frame that was called returns: what waits goes on, with what is given back. -/
def Resumes (w : State) (callee : Block) (u u' : State) : Prop :=
  u.frame.block = callee ∧
    ∃ op next result, u.frame.block.segment.decode u.frame.ip = .ok (op, next) ∧
      Gives op u.operands result ∧
      u' = { w with console := u.console, operands := w.operands ++ result.toList.toArray }

/-- **One instruction above a state that waits.** It keeps the state where it is, or brings it back.
Of the effects only a return can bring it back, and only that of the frame that was called. -/
theorem step_above (h : w.Above callee u) (hs : m.step u = .ok (.running u')) :
    w.Above callee u' ∨ Resumes w callee u u' := by
  obtain ⟨op, next, e, hdecode, heffect, hperform⟩ := step_ok hs
  have hspares := effect_spares heffect
  have hkept : ∀ {rest : Array Value}, Taken u.frame.stackBase u.operands rest →
      w.operands.toList <+: rest.toList :=
    fun htaken => htaken.keeps h.operands h.bases.2
  cases e with
  | goOn ip console locals operands pushed =>
    obtain ⟨-, hwritten, htaken⟩ := hspares
    obtain ⟨operands', hpush, hpure⟩ := except_bind_ok.mp hperform
    cases hpure
    rw [pushAny_eq hpush]
    refine .inl (h.goOn ip console (hwritten.keeps h.locals h.bases.1) ?_)
    rw [Array.toList_append]
    exact (hkept htaken).trans (List.prefix_append _ _)
  | call index =>
    obtain ⟨⟨f, locals, operands⟩, hactivate, hpure⟩ := except_bind_ok.mp hperform
    cases hpure
    exact .inl (h.call (activate_ok hactivate))
  | leave operands result =>
    obtain ⟨htaken, hgives⟩ := hspares
    obtain ⟨caller, operands', hcaller, hpush, rfl⟩ := perform_leave_running hperform
    rw [pushAny_eq hpush]
    rcases h.innermost with ⟨hcallers, hsite⟩ | ⟨hdeeper, hsites, -⟩
    · -- the frame that was called, which owns all that lies above what waits
      simp only [Frame.site, Prod.mk.injEq] at hsite
      obtain ⟨hblock, hlocals, hoperands⟩ := hsite
      have hframes : u.callers = w.callers.push w.frame := by
        apply Array.toList_inj.mp
        rw [hcallers, State.frames, Array.toList_push]
      rw [hframes, Array.back?_push] at hcaller
      cases hcaller
      refine .inr ⟨hblock, op, next, result, hdecode, hgives, ?_⟩
      rw [hframes, Array.pop_push, hlocals, hoperands, shrink_of_isPrefix h.locals,
        shrink_of_isPrefix (hkept htaken)]
    · refine .inl (h.leave hcaller hdeeper hsites ?_)
      rw [Array.toList_append, Array.toList_shrink]
      exact (List.prefix_take_iff.mpr ⟨hkept htaken, h.bases.2⟩).trans (List.prefix_append _ _)
  | finish status => cases hperform

/-! ## From a call to its return

The run between the two, as a count of instructions during which there are more frames. -/

theorem runState_succ {n : Nat} {s t : State} (h : m.runState (n + 1) s = .unfinished t) :
    ∃ u, m.runState n s = .unfinished u ∧ m.step u = .ok (.running t) := by
  induction n generalizing s with
  | zero =>
    refine ⟨s, rfl, ?_⟩
    simp only [runState] at h
    split at h
    · cases h
    · cases h
    · next s₁ hs₁ =>
      cases h
      exact hs₁
  | succ n ih =>
    rw [runState] at h ⊢
    cases hs : m.step s with
    | error e =>
      simp only [hs] at h
      cases h
    | ok p =>
      cases p with
      | finished o c =>
        simp only [hs] at h
        cases h
      | running s₁ =>
        simp only [hs] at h
        exact ih h

end Machine

/-- A run has not ended, and more than `depth` frames wait in it. -/
def Execution.DeeperThan (depth : Nat) : Execution → Prop
  | .unfinished u => depth < u.callers.size
  | .ended _ _ => False

instance (depth : Nat) : (x : Execution) → Decidable (x.DeeperThan depth)
  | .unfinished u => inferInstanceAs (Decidable (depth < u.callers.size))
  | .ended _ _ => inferInstanceAs (Decidable False)

namespace Machine

variable {m : Machine}

/-- The call that `s` makes is over in `t`. Up to `last`, which is `n` instructions later, there are
more frames than in `s`, and in `t`, which follows, no more than there were. -/
structure CallReturns (m : Machine) (n : Nat) (s last t : State) : Prop where
  reaches : m.runState n s = .unfinished last
  deeper : ∀ k ≤ n, 0 < k → (m.runState k s).DeeperThan s.callers.size
  returns : m.step last = .ok (.running t)
  back : t.callers.size ≤ s.callers.size

/-- A call leaves its caller waiting below the frame that begins. -/
theorem step_call {s u : State} {i : UInt16} {next : Nat}
    (hcall : s.frame.block.segment.decode s.frame.ip = .ok (.call i, next))
    (hs : m.step s = .ok (.running u)) :
    ∃ callee, m.artifact.blocks[i.toNat]? = some callee ∧
      s.frame.stackBase + callee.signature.params.length ≤ s.operands.size ∧
      (s.waiting next callee).Above callee u := by
  obtain ⟨op, next', e, hdecode, heffect, hperform⟩ := step_ok hs
  rw [hcall] at hdecode
  cases hdecode
  cases heffect
  obtain ⟨⟨f, locals, operands⟩, hactivate, hpure⟩ := except_bind_ok.mp hperform
  cases hpure
  have hb := activate_ok hactivate
  refine ⟨f.block, hb.block, hb.count_le, ?_, ?_, hb.behind, ?_⟩
  · rw [Array.toList_push]
    exact List.prefix_rfl
  · refine ⟨[], ?_, by simp⟩
    rw [State.sites_eq, Array.toList_push, Frame.site, hb.localsBase, hb.stackBase, hb.left]
    rfl
  · rw [hb.left]
    exact List.prefix_rfl

/-- As long as there are more frames, the caller waits. By induction on the instructions since the
call: a return that brought the caller back would leave no more frames than before. -/
theorem runState_above {s : State} {i : UInt16} {next n : Nat}
    (hcall : s.frame.block.segment.decode s.frame.ip = .ok (.call i, next))
    (hdeeper : ∀ k ≤ n + 1, 0 < k → (m.runState k s).DeeperThan s.callers.size) {u : State}
    (hrun : m.runState (n + 1) s = .unfinished u) :
    ∃ callee, m.artifact.blocks[i.toNat]? = some callee ∧
      s.frame.stackBase + callee.signature.params.length ≤ s.operands.size ∧
      (s.waiting next callee).Above callee u := by
  induction n generalizing u with
  | zero =>
    obtain ⟨s₀, hs₀, hs⟩ := runState_succ hrun
    cases hs₀
    exact step_call hcall hs
  | succ n ih =>
    obtain ⟨u₀, hu₀, hs⟩ := runState_succ hrun
    obtain ⟨callee, hcallee, hcount, habove⟩ := ih (fun k hk => hdeeper k (by omega)) hu₀
    refine ⟨callee, hcallee, hcount, ?_⟩
    rcases step_above habove hs with habove | ⟨_, _, _, _, _, _, hresumed⟩
    · exact habove
    · -- the call would be over already
      have hdepth := hdeeper (n + 1 + 1) (Nat.le_refl _) (Nat.succ_pos _)
      rw [hrun, hresumed] at hdepth
      exact absurd hdepth (Nat.lt_irrefl _)

/-- **A call does not disturb its caller**, whatever the code is that runs until it returns: the
frame that made it goes on behind the call, with the frames below it and all their slots as they
were, and the arguments are gone from the operands. In their place is the result if the block that
was called has left by a return with a value; nothing else that it put there is left. -/
theorem call_spares_caller {s last t : State} {i : UInt16} {n next : Nat}
    (hcall : s.frame.block.segment.decode s.frame.ip = .ok (.call i, next))
    (h : m.CallReturns n s last t) :
    ∃ callee, m.artifact.blocks[i.toNat]? = some callee ∧ last.frame.block = callee ∧
      t.frame = { s.frame with ip := next } ∧ t.callers = s.callers ∧ t.locals = s.locals ∧
      let count := callee.signature.params.length
      let kept := s.operands.take (s.operands.size - count)
      s.frame.stackBase + count ≤ s.operands.size ∧
      ((∃ type behind v, last.frame.block.segment.decode last.frame.ip = .ok (.ret type, behind) ∧
        last.operands.back? = some v ∧ v.type = type ∧ t.operands = kept.push v) ∨
      ∃ behind, last.frame.block.segment.decode last.frame.ip = .ok (.retVoid, behind) ∧
        t.operands = kept) := by
  obtain ⟨hreaches, hdeeper, hreturns, hback⟩ := h
  cases n with
  | zero =>
    cases hreaches
    obtain ⟨callee, -, -, habove⟩ := step_call hcall hreturns
    exact absurd habove.depth (Nat.not_lt_of_le hback)
  | succ n =>
    obtain ⟨callee, hcallee, hcount, habove⟩ := runState_above hcall hdeeper hreaches
    rcases step_above habove hreturns with habove | ⟨hblock, op, behind, result, hop, hgives, rfl⟩
    · exact absurd habove.depth (Nat.not_lt_of_le hback)
    · refine ⟨callee, hcallee, hblock, rfl, rfl, rfl, hcount, ?_⟩
      rcases hgives with ⟨type, v, rfl, hv, htype, rfl⟩ | ⟨rfl, rfl⟩
      · refine .inl ⟨type, behind, v, hop, hv, htype, ?_⟩
        simp [State.waiting]
      · refine .inr ⟨behind, hop, ?_⟩
        simp [State.waiting]

/-- Calls a block with a number, and has another number of its own on the stack. -/
def askingBlock : Block where
  name := startName
  signature := {}
  slots := #[.int]
  segment := {
    code := #[0x00, 0, 0, 0x00, 1, 0, 0x50, 1, 0, 0x53]
    pool := #[.value (.int 7), .value (.int 8)] }

/-- Leaves one number on the stack, keeps it in a slot, and gives it back after another call. -/
def answeringBlock : Block where
  name := "answering"
  signature := { params := [.int], result := some .int }
  slots := #[.int, .int]
  segment := {
    code := #[0x00, 0, 0, 0x00, 0, 0, 0x12, 1, 1, 0, 0x50, 2, 0, 0x10, 1, 1, 0, 0x52, 1]
    pool := #[.value (.int 9)] }

/-- Leaves a number on the stack and returns without one. -/
def idleBlock : Block where
  name := "idle"
  signature := {}
  slots := #[]
  segment := { code := #[0x00, 0, 0, 0x53], pool := #[.value (.int 5)] }

def askingMachine : Machine := { artifact := ⟨"asking", #[askingBlock, answeringBlock, idleBlock]⟩ }

/-- The first block before its call. -/
def askingState : State :=
  ⟨.ofInput [], ⟨askingBlock, 6, 0, 0⟩, #[], #[.int 0], #[.int 7, .int 8]⟩

/-- The block that was called before its return, eight instructions later. -/
def answeringState : State :=
  ⟨.ofInput [], ⟨answeringBlock, 17, 1, 1⟩, #[⟨askingBlock, 9, 0, 0⟩],
    #[.int 0, .int 8, .int 9], #[.int 7, .int 9, .int 9]⟩

/-- The first block behind its call. -/
def answeredState : State :=
  ⟨.ofInput [], ⟨askingBlock, 9, 0, 0⟩, #[], #[.int 0], #[.int 7, .int 9]⟩

/-- The number below the argument is still there, the answer has taken the place of the argument,
and what the two blocks left behind is gone. -/
theorem call_spares_caller_asking :
    askingMachine.CallReturns 8 askingState answeringState answeredState ∧
    answeredState.frame = { askingState.frame with ip := 9 } ∧
    answeredState.callers = askingState.callers ∧ answeredState.locals = askingState.locals ∧
    answeredState.operands = (askingState.operands.take 1).push (.int 9) := by
  have hreturns : askingMachine.CallReturns 8 askingState answeringState answeredState :=
    ⟨by with_unfolding_all rfl, by decide +kernel, rfl, by decide⟩
  have hcall : askingState.frame.block.segment.decode askingState.frame.ip = .ok (.call 1, 9) := rfl
  obtain ⟨callee, hcallee, -, hframe, hcallers, hlocals, -, hoperands⟩ :=
    call_spares_caller hcall hreturns
  cases hcallee
  refine ⟨hreturns, hframe, hcallers, hlocals, ?_⟩
  rcases hoperands with ⟨_, _, v, _, hv, _, hoperands⟩ | ⟨_, hvoid, _⟩
  · cases hv
    exact hoperands
  · cases hvoid

end Machine

end TypedStack
