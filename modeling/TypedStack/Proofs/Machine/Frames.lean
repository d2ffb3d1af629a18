import TypedStack.Proofs.Machine.Points
/-!
# The frames of a running program

Nothing is known of the code that runs here: it may jump anywhere, name slots that are not there and
take parameters that its slots do not provide for. The machine keeps its frames in order all the
same, `State.WellFramed`: their parts of the operand stack and of the slots lie one above the other,
nothing grows beyond the limits, and every slot that a block declares is there. The state in which a
block begins is so, and one step keeps it, effect by effect.

The order of the operands is weaker than that of the slots. A frame owns a fixed number of slots, so
the next one begins exactly where it ends; of the operands it owns what it has pushed, and a base
may be the same as the one below.
-/

set_option autoImplicit false

namespace TypedStack

/-- All frames, the outermost first. -/
def State.frames (s : State) : List Frame := s.callers.toList ++ [s.frame]

namespace Frame

/-- The number of slots that a frame owns: those for its arguments and those that its block
declares, where the two may overlap. -/
def width (f : Frame) : Nat := max f.block.signature.params.length f.block.slots.size

/-- Frames own adjacent parts of the slots, from `start` up to `stop`. -/
def Tile : Nat → List Frame → Nat → Prop
  | start, [], stop => start = stop
  | start, f :: rest, stop => f.localsBase = start ∧ Tile (start + f.width) rest stop

theorem tile_append {start stop : Nat} {below above : List Frame} :
    Tile start (below ++ above) stop ↔ ∃ mid, Tile start below mid ∧ Tile mid above stop := by
  induction below generalizing start with
  | nil => simp [Tile]
  | cons f below ih => simp [Tile, ih, and_assoc]

/-- A last frame begins where the others end. -/
theorem tile_concat {start stop : Nat} {below : List Frame} {f : Frame} :
    Tile start (below ++ [f]) stop ↔
      Tile start below f.localsBase ∧ f.localsBase + f.width = stop := by
  rw [tile_append]
  constructor
  · rintro ⟨mid, hbelow, rfl, hstop⟩
    exact ⟨hbelow, hstop⟩
  · rintro ⟨hbelow, hstop⟩
    exact ⟨_, hbelow, rfl, hstop⟩

/-- The parts of the slots begin in the order of the frames. -/
theorem Tile.bases_le {start stop : Nat} {frames : List Frame} (h : Tile start frames stop) :
    (∀ f ∈ frames, start ≤ f.localsBase) ∧ (frames.map (·.localsBase)).Pairwise (· ≤ ·) := by
  induction frames generalizing start with
  | nil => simp
  | cons f rest ih =>
    obtain ⟨rfl, hrest⟩ := h
    obtain ⟨hle, hsorted⟩ := ih hrest
    refine ⟨?_, ?_⟩
    · intro g hg
      rcases List.mem_cons.mp hg with rfl | hg
      · exact Nat.le_refl _
      · exact Nat.le_trans (Nat.le_add_right _ _) (hle g hg)
    · rw [List.map_cons, List.pairwise_cons]
      refine ⟨?_, hsorted⟩
      intro base hbase
      obtain ⟨g, hg, rfl⟩ := List.mem_map.mp hbase
      exact Nat.le_trans (Nat.le_add_right _ _) (hle g hg)

end Frame

/-- The frames of a state are in order, and within the limits. The floor says that the innermost
frame has no fewer operands than it began with. -/
structure State.WellFramed (m : Machine) (s : State) : Prop where
  blocks : ∀ f ∈ s.frames, ∃ i : Nat, m.artifact.blocks[i]? = some f.block
  stackBases : (s.frames.map (·.stackBase)).Pairwise (· ≤ ·)
  floor : s.frame.stackBase ≤ s.operands.size
  locals : Frame.Tile 0 s.frames s.locals.size
  operands_le : s.operands.size ≤ m.limits.operands
  frames_le : s.frames.length ≤ m.limits.frames

namespace Machine

variable {m : Machine}

/-! ## Pushing and beginning

The two places where a limit is looked at, and what is known behind them. -/

theorem push_ok {v : Value} {operands operands' : Array Value}
    (h : m.push v operands = .ok operands') :
    operands' = operands.push v ∧ operands'.size ≤ m.limits.operands := by
  unfold push at h
  split at h
  · cases h
  · next hroom =>
    cases h
    refine ⟨rfl, ?_⟩
    rw [Array.size_push]
    omega

theorem pushAny_ok {v : Option Value} {operands operands' : Array Value}
    (h : m.pushAny operands v = .ok operands') (hle : operands.size ≤ m.limits.operands) :
    operands.size ≤ operands'.size ∧ operands'.size ≤ m.limits.operands := by
  cases v with
  | none =>
    cases h
    exact ⟨Nat.le_refl _, hle⟩
  | some v =>
    obtain ⟨rfl, hle'⟩ := push_ok h
    exact ⟨by simp, hle'⟩

theorem pushAll_le {arguments : List Value} {operands operands' : Array Value}
    (h : arguments.foldlM (fun operands v => m.push v operands) operands = .ok operands')
    (hle : operands.size ≤ m.limits.operands) : operands'.size ≤ m.limits.operands := by
  induction arguments generalizing operands with
  | nil =>
    cases h
    exact hle
  | cons v arguments ih =>
    obtain ⟨mid, hmid, hrest⟩ := except_bind_ok.mp h
    exact ih hrest (push_ok hmid).2

/-- What a new frame owns. -/
structure Begins (m : Machine) (index depth floor : Nat) (locals operands : Array Value) (f : Frame)
    (locals' rest : Array Value) : Prop where
  block : m.artifact.blocks[index]? = some f.block
  depth_lt : depth < m.limits.frames
  localsBase : f.localsBase = locals.size
  stackBase : f.stackBase = rest.size
  floor_le : floor ≤ rest.size
  size_le : rest.size ≤ operands.size
  behind : locals.toList <+: locals'.toList
  locals : locals'.size = locals.size + f.width
  count_le : floor + f.block.signature.params.length ≤ operands.size
  left : rest = operands.take (operands.size - f.block.signature.params.length)

/-- A frame begins with the topmost operands as its first slots and zeros behind them. Where a block
declares fewer slots than it has parameters, all of its arguments have a slot nevertheless. -/
theorem activate_ok {index depth floor : Nat} {locals operands locals' rest : Array Value}
    {f : Frame} (h : m.activate index depth floor locals operands = .ok (f, locals', rest)) :
    Begins m index depth floor locals operands f locals' rest := by
  unfold activate at h
  split at h
  · cases h
  · next hdepth =>
    split at h
    · cases h
    · next block hblock =>
      simp only at h
      split at h
      · cases h
      · next hcount =>
        cases h
        refine ⟨hblock, by omega, rfl, ?_, ?_, ?_, ?_, ?_, Nat.le_of_not_lt hcount,
          Array.shrink_eq_take⟩
        · simp
        · simp
          omega
        · simp
        · rw [Array.append_assoc, Array.toList_append]
          exact List.prefix_append _ _
        · -- the arguments fill the first slots, and zeros those that are left
          simp only [Array.size_append, Array.size_extract, Array.size_map, Frame.width]
          omega

/-- A block begins with its frames in order. -/
theorem begin_wellFramed {index : Nat} {arguments : List Value} {console : Console} {s : State}
    (h : m.begin index arguments console = .ok s) : s.WellFramed m := by
  obtain ⟨operands, f, locals, rest, hpush, hactivate, rfl⟩ := begin_ok h
  have hb := activate_ok hactivate
  have hle : operands.size ≤ m.limits.operands := pushAll_le hpush (by simp)
  refine ⟨?_, by simp [State.frames], ?_, ?_, ?_, ?_⟩
  · intro g hg
    simp only [State.frames, List.nil_append, List.mem_singleton] at hg
    subst hg
    exact ⟨index, hb.block⟩
  · exact Nat.le_of_eq hb.stackBase
  · have hbase := hb.localsBase
    have hsize := hb.locals
    simp only [List.size_toArray, List.length_nil] at hbase hsize
    simp [State.frames, Frame.Tile, hbase, hsize]
  · exact Nat.le_trans hb.size_le hle
  · simpa [State.frames] using Nat.succ_le_of_lt hb.depth_lt

end Machine

/-! ## One step

One lemma for each effect that goes on. -/

namespace State.WellFramed

variable {m : Machine} {s : State}

/-- The innermost frame is the highest on the operand stack. -/
theorem stackBase_le (h : s.WellFramed m) :
    ∀ f ∈ s.callers.toList, f.stackBase ≤ s.frame.stackBase := by
  intro f hf
  have hsorted := h.stackBases
  rw [State.frames, List.map_append, List.pairwise_append] at hsorted
  exact hsorted.2.2 _ (List.mem_map_of_mem hf) _ (by simp)

/-- The slots that a block declares lie among the locals. -/
theorem slot_lt (h : s.WellFramed m) {slot : UInt16}
    (hslot : slot.toNat < s.frame.block.slots.size) :
    s.frame.localsBase + slot.toNat < s.locals.size := by
  have htile := h.locals
  rw [State.frames, Frame.tile_concat, Frame.width] at htile
  omega

/-- The frame goes on, with other operands and with other values in its slots. -/
theorem goOn (h : s.WellFramed m) (ip : Nat) (console : Console) {locals operands : Array Value}
    (hlocals : locals.size = s.locals.size) (hfloor : s.frame.stackBase ≤ operands.size)
    (hle : operands.size ≤ m.limits.operands) :
    State.WellFramed m ⟨console, { s.frame with ip }, s.callers, locals, operands⟩ := by
  refine ⟨?_, ?_, hfloor, ?_, hle, ?_⟩
  · intro f hf
    rcases List.mem_append.mp hf with hf | hf
    · exact h.blocks f (List.mem_append_left _ hf)
    · rw [List.mem_singleton.mp hf]
      exact h.blocks s.frame (List.mem_append_right _ (List.mem_singleton_self _))
  · simpa [State.frames] using h.stackBases
  · have htile := h.locals
    rw [State.frames, Frame.tile_concat] at htile
    rw [State.frames, Frame.tile_concat, hlocals]
    exact htile
  · simpa [State.frames] using h.frames_le

/-- A frame begins above the others. Its slots are behind all that are there, and its operands are
what the arguments have left of its caller's. -/
theorem call (h : s.WellFramed m) {index next : Nat} {f : Frame} {locals operands : Array Value}
    (hb : m.Begins index (s.callers.size + 1) s.frame.stackBase s.locals s.operands f locals
      operands) :
    State.WellFramed m
      ⟨s.console, f, s.callers.push { s.frame with ip := next }, locals, operands⟩ := by
  have hframes : State.frames
      ⟨s.console, f, s.callers.push { s.frame with ip := next }, locals, operands⟩ =
      (s.callers.toList ++ [{ s.frame with ip := next }]) ++ [f] := by
    simp [State.frames]
  -- the caller waits where it would have gone on
  have hwaits := h.goOn next s.console rfl h.floor h.operands_le
  refine ⟨?_, ?_, Nat.le_of_eq hb.stackBase, ?_, Nat.le_trans hb.size_le h.operands_le, ?_⟩
  · intro g hg
    rw [hframes] at hg
    rcases List.mem_append.mp hg with hg | hg
    · exact hwaits.blocks g hg
    · rw [List.mem_singleton.mp hg]
      exact ⟨index, hb.block⟩
  · rw [hframes, List.map_append, List.pairwise_append]
    refine ⟨hwaits.stackBases, List.pairwise_singleton _ _, ?_⟩
    intro base hbase top htop
    obtain ⟨g, hg, rfl⟩ := List.mem_map.mp hbase
    rw [List.map_singleton, List.mem_singleton] at htop
    rw [htop, hb.stackBase]
    refine Nat.le_trans ?_ hb.floor_le
    rcases List.mem_append.mp hg with hg | hg
    · exact h.stackBase_le g hg
    · have hbase : g.stackBase = s.frame.stackBase := by rw [List.mem_singleton.mp hg]
      exact Nat.le_of_eq hbase
  · rw [hframes, Frame.tile_concat, hb.localsBase]
    exact ⟨hwaits.locals, hb.locals.symm⟩
  · rw [hframes, List.length_append, List.length_append]
    exact Nat.succ_le_of_lt hb.depth_lt

/-- The frame below goes on, with the operands and slots that were there before the call. What the
innermost frame owned is cut off at its bases, and these are the places where the frame below
ends. -/
theorem leave (h : s.WellFramed m) {caller : Frame} (hcaller : s.callers.back? = some caller)
    {operands rest : Array Value} (hfloor : s.frame.stackBase ≤ rest.size)
    (hsize : (rest.shrink s.frame.stackBase).size ≤ operands.size)
    (hle : operands.size ≤ m.limits.operands) :
    State.WellFramed m
      ⟨s.console, caller, s.callers.pop, s.locals.shrink s.frame.localsBase, operands⟩ := by
  have hcallers : s.callers.toList = s.callers.pop.toList ++ [caller] := by
    obtain ⟨below, hbelow⟩ := Array.back?_eq_some_iff.mp hcaller
    rw [hbelow, Array.pop_push, Array.toList_push]
  have hframes : State.frames
      ⟨s.console, caller, s.callers.pop, s.locals.shrink s.frame.localsBase, operands⟩ =
      s.callers.toList := hcallers.symm
  have htile := h.locals
  rw [State.frames, Frame.tile_concat] at htile
  refine ⟨?_, ?_, ?_, ?_, hle, ?_⟩
  · intro f hf
    rw [hframes] at hf
    exact h.blocks f (List.mem_append_left _ hf)
  · have hsorted := h.stackBases
    rw [State.frames, List.map_append, List.pairwise_append] at hsorted
    rw [hframes]
    exact hsorted.1
  · have hbelow : caller.stackBase ≤ s.frame.stackBase :=
      h.stackBase_le caller (by rw [hcallers]; simp)
    simp only [Array.size_shrink] at hsize
    show caller.stackBase ≤ operands.size
    omega
  · rw [hframes, Array.size_shrink, Nat.min_eq_left (by omega)]
    exact htile.1
  · have hdepth := h.frames_le
    rw [State.frames, List.length_append] at hdepth
    rw [hframes]
    omega

end State.WellFramed

namespace Machine

variable {m : Machine}

/-- **A step keeps the frames in order.** The effect of the instruction spares what belongs to other
frames, and what the machine does with the effect is one of the cases above. -/
theorem step_wellFramed {s s' : State} (h : s.WellFramed m) (hs : m.step s = .ok (.running s')) :
    s'.WellFramed m := by
  obtain ⟨op, next, e, -, heffect, hperform⟩ := step_ok hs
  have hspares := effect_spares heffect
  cases e with
  | goOn ip console locals operands pushed =>
    obtain ⟨-, hwritten, htaken⟩ := hspares
    obtain ⟨operands', hpush, hpure⟩ := except_bind_ok.mp hperform
    cases hpure
    obtain ⟨hgrown, hle⟩ := pushAny_ok hpush (Nat.le_trans htaken.size_le h.operands_le)
    have hfloor := htaken.above _ (Nat.le_refl _) h.floor
    exact h.goOn ip console hwritten.size_eq (Nat.le_trans hfloor hgrown) hle
  | call index =>
    obtain ⟨⟨f, locals, operands⟩, hactivate, hpure⟩ := except_bind_ok.mp hperform
    cases hpure
    exact h.call (activate_ok hactivate)
  | leave operands result =>
    obtain ⟨htaken, -⟩ := hspares
    have hfloor := htaken.above _ (Nat.le_refl _) h.floor
    have hroom : (operands.shrink s.frame.stackBase).size ≤ m.limits.operands := by
      rw [Array.size_shrink]
      exact Nat.le_trans (Nat.min_le_right _ _) (Nat.le_trans htaken.size_le h.operands_le)
    obtain ⟨caller, operands', hcaller, hpush, rfl⟩ := perform_leave_running hperform
    obtain ⟨hgrown, hle⟩ := pushAny_ok hpush hroom
    exact h.leave hcaller hfloor hgrown hle
  | finish status => cases hperform

/-- A state that a program or the call of a block comes to. -/
def Visits (m : Machine) (s : State) : Prop :=
  (∃ input n, (m.after (.ofInput input) n).execution = .unfinished s) ∨
    ∃ name arguments n, m.call n name arguments = .unfinished s

/-- So the frames are in order in every state that is ever visited. -/
theorem Visits.wellFramed {s : State} (h : m.Visits s) : s.WellFramed m := by
  rcases h with ⟨input, n, hs⟩ | ⟨name, arguments, n, hs⟩
  · exact after_invariant (fun _ _ _ => begin_wellFramed) (fun _ _ => step_wellFramed) n s hs
  · simp only [Machine.call] at hs
    split at hs
    · cases hs
    · split at hs
      · cases hs
      · split at hs
        · cases hs
        · unfold invoke at hs
          split at hs
          · cases hs
          · next s₀ hs₀ =>
            exact runState_invariant (fun _ _ => step_wellFramed) n s₀ s (begin_wellFramed hs₀) hs

end Machine

end TypedStack
