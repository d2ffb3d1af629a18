import TypedStack.Proofs.Machine.Layers
/-!
# Runs in layers

What a run of the machine does can be read off a run of the layered state, which knows no limits:
under any limits the machine does the same or stops at a limit on the way, with a part of the lines
written (`Machine.runState_reaches`), and every run that ends fits within some limits
(`Machine.runState_fits`).

So a statement about programs is proved for the layers, where there is one run, and carried over to
all limits and any fuel at once. What it turns into has a second case, in which the run was cut
short.
-/

set_option autoImplicit false

namespace TypedStack

/-! ## Written lines

Lines are kept with the latest first, so that writing on makes the older lines a suffix. -/

/-- All that the first console has written is the beginning of what the second has written. -/
structure Console.Continues (c c' : Console) : Prop where
  output : c.outputLines <:+ c'.outputLines
  errors : c.errorLines <:+ c'.errorLines

namespace Console.Continues

theorem refl (c : Console) : c.Continues c := ⟨List.suffix_rfl, List.suffix_rfl⟩

theorem trans {c c' c'' : Console} (h : c.Continues c') (h' : c'.Continues c'') :
    c.Continues c'' :=
  ⟨h.output.trans h'.output, h.errors.trans h'.errors⟩

end Console.Continues

namespace Layered

variable {blocks : Array Block} {l l' l'' : Layered}

/-- The console after a step, whether or not the run is over. -/
def Next.console : Next → Console
  | .running l => l.console
  | .finished _ c => c

theorem leave_console (l : Layered) (result : Option Value) :
    (l.leave result).console = l.console := by
  unfold leave
  cases l.waiting <;> rfl

/-- No instruction takes back a line. One case per instruction, of which two write. -/
theorem execute_continues {op : EncodedOp} {next : Nat} {n : Next}
    (h : l.execute blocks op next = .ok n) : l.console.Continues n.console := by
  -- only the two printing instructions write a line, and the others leave both streams alone
  have same : ∀ {n' : Next}, n'.console = l.console → l.console.Continues n'.console :=
    fun hc => hc ▸ .refl _
  cases op with
  | const i =>
    simp only [execute] at h
    split at h
    · cases h
    · cases h
      exact same rfl
  | pop t | cast source target | jumpIf relation target | jumpIfTrue target =>
    obtain ⟨_, _, hn⟩ := except_bind_ok.mp h
    exact except_pure_ok.mp hn ▸ same rfl
  | load t i =>
    obtain ⟨v, _, hn⟩ := except_bind_ok.mp h
    split at hn
    · exact except_pure_ok.mp hn ▸ same rfl
    · cases hn
  | store t i =>
    obtain ⟨_, _, hn⟩ := except_bind_ok.mp h
    obtain ⟨_, _, hn⟩ := except_bind_ok.mp hn
    exact except_pure_ok.mp hn ▸ same rfl
  | shift kind =>
    obtain ⟨_, _, hn⟩ := except_bind_ok.mp h
    obtain ⟨_, _, hn⟩ := except_bind_ok.mp hn
    exact except_pure_ok.mp hn ▸ same rfl
  | arith o t =>
    obtain ⟨⟨b, _⟩, _, hn⟩ := except_bind_ok.mp h
    obtain ⟨⟨a, _⟩, _, hn⟩ := except_bind_ok.mp hn
    rcases hr : o.apply a b with (_ | got) | v
    · simp [hr, except_throw_ok] at hn
    · simp [hr, except_throw_ok] at hn
    · simp only [hr, except_pure_ok] at hn
      exact hn ▸ same rfl
  | compare t =>
    obtain ⟨⟨b, _⟩, _, hn⟩ := except_bind_ok.mp h
    obtain ⟨⟨a, _⟩, _, hn⟩ := except_bind_ok.mp hn
    cases hr : a.order b with
    | none => simp [hr, except_throw_ok] at hn
    | some ordering =>
      simp only [hr, except_pure_ok] at hn
      exact hn ▸ same rfl
  | jump target =>
    cases h
    exact .refl _
  | openInput =>
    cases h
    exact ⟨List.suffix_rfl, List.suffix_rfl⟩
  | call i =>
    simp only [execute] at h
    split at h
    · cases h
    · split at h
      · cases h
      · cases h
        exact .refl _
  | ret t =>
    obtain ⟨_, _, hn⟩ := except_bind_ok.mp h
    exact except_pure_ok.mp hn ▸ same (leave_console l _)
  | retVoid =>
    cases h
    exact same (leave_console l _)
  | read t =>
    simp only [execute] at h
    split at h
    · split at h
      · cases h
      · cases h
        exact ⟨List.suffix_rfl, List.suffix_rfl⟩
    · cases h
  | print t =>
    obtain ⟨_, _, hn⟩ := except_bind_ok.mp h
    rw [← except_pure_ok.mp hn]
    exact ⟨List.suffix_cons _ _, List.suffix_rfl⟩
  | printError i =>
    simp only [execute] at h
    split at h
    · cases h
      exact ⟨List.suffix_rfl, List.suffix_cons _ _⟩
    · cases h
  | exit =>
    obtain ⟨_, _, hn⟩ := except_bind_ok.mp h
    exact except_pure_ok.mp hn ▸ same rfl

theorem advance_continues {n : Next} (h : l.advance blocks = .ok n) :
    l.console.Continues n.console := by
  unfold advance at h
  split at h
  · cases h
  · exact execute_continues h

/-! ## Runs

A number of steps that lead from one state to another, and the step that ends a run. -/

/-- The second state is the one after a number of steps from the first. -/
inductive Reaches (blocks : Array Block) (l : Layered) : Nat → Layered → Prop
  | refl : Reaches blocks l 0 l
  | step {n : Nat} {l' l'' : Layered} (h : Reaches blocks l n l')
      (hstep : l'.advance blocks = .ok (.running l'')) : Reaches blocks l (n + 1) l''

namespace Reaches

theorem single (h : l.advance blocks = .ok (.running l')) : Reaches blocks l 1 l' := .step .refl h

theorem trans {m n : Nat} (h : Reaches blocks l m l') (h' : Reaches blocks l' n l'') :
    Reaches blocks l (m + n) l'' := by
  induction h' with
  | refl => exact h
  | step _ hstep ih => exact .step ih hstep

/-- A run passes through a state after each smaller number of steps. -/
theorem before {m n : Nat} (h : Reaches blocks l n l') (hmn : m ≤ n) :
    ∃ mid, Reaches blocks l m mid := by
  induction h with
  | refl => exact ⟨l, Nat.le_zero.mp hmn ▸ .refl⟩
  | @step n l' l'' h hstep ih =>
    by_cases hm : m = n + 1
    · exact ⟨l'', hm ▸ .step h hstep⟩
    · exact ih (by omega)

theorem continues {n : Nat} (h : Reaches blocks l n l') : l.console.Continues l'.console := by
  induction h with
  | refl => exact .refl _
  | step _ hstep ih => exact ih.trans (advance_continues hstep)

end Reaches

/-- The next instruction ends the run, with an outcome or with an error. -/
inductive Stops (blocks : Array Block) (l : Layered) : Except RuntimeError Outcome → Console → Prop
  | finished {o : Outcome} {c : Console} (h : l.advance blocks = .ok (.finished o c)) :
      Stops blocks l (.ok o) c
  | failed {e : RuntimeError} (h : l.advance blocks = .error e) :
      Stops blocks l (.error e) l.console

theorem Stops.continues {r : Except RuntimeError Outcome} {c : Console} (h : Stops blocks l r c) :
    l.console.Continues c := by
  cases h with
  | finished h => exact advance_continues h
  | failed h => exact .refl _

end Layered

/-! ## Limits

The machine with its limits beside the layers without. A run of the layers has a number of steps,
and fuel is counted from there. -/

/-- The errors that stop a run at one of its limits. -/
def RuntimeError.isLimit : RuntimeError → Bool
  | .stackOverflow | .callDepthExceeded => true
  | _ => false

namespace Machine

/-- A run is over before its end: a limit was reached, and the lines written until then are the
beginning of those in the console given. -/
def CutShort (c : Console) (x : Execution) : Prop :=
  ∃ e c', x = .ended (.error e) c' ∧ e.isLimit = true ∧ c'.Continues c

theorem CutShort.mono {c c' : Console} {x : Execution} (h : CutShort c x)
    (hc : c.Continues c') : CutShort c' x := by
  obtain ⟨e, written, hx, he, hw⟩ := h
  exact ⟨e, written, hx, he, hw.trans hc⟩

/-- One step: the machine keeps up, or it stops here whatever the fuel. -/
theorem runState_matches {m : Machine} {l : Layered} {r : Except RuntimeError Layered.Next}
    (h : Matches m l (m.step l.flatten) r) :
    m.step l.flatten = r.map Layered.Next.flatten ∨
      ∀ fuel, CutShort l.console (m.runState (fuel + 1) l.flatten) := by
  rcases h with h | ⟨h, -⟩ | ⟨h, -⟩
  · exact .inl h
  · refine .inr fun fuel => ⟨.stackOverflow, l.console, ?_, rfl, .refl _⟩
    rw [runState, h]
    rfl
  · refine .inr fun fuel => ⟨.callDepthExceeded, l.console, ?_, rfl, .refl _⟩
    rw [runState, h]
    rfl

/-- **A run under limits.** After the steps of the layers the machine is in the same state with the
rest of its fuel, or it has been cut short with no line that the layers have not written. By
induction on the steps, the last of which is one of the machine. -/
theorem runState_reaches (m : Machine) {l l' : Layered} {n : Nat}
    (h : Layered.Reaches m.artifact.blocks l n l') :
    (∀ fuel, m.runState (n + fuel) l.flatten = m.runState fuel l'.flatten) ∨
      ∀ fuel, CutShort l'.console (m.runState (n + fuel) l.flatten) := by
  -- once a limit is hit the machine is over, so the last step matters only if none was hit before
  induction h with
  | refl => exact .inl fun fuel => by rw [Nat.zero_add]
  | @step n mid l' h hstep ih =>
    have hnext := Layered.advance_continues hstep
    rcases ih with ih | ih
    · rcases runState_matches (m.step_flatten mid) with hs | hs
      · rw [hstep] at hs
        refine .inl fun fuel => ?_
        rw [Nat.add_assoc, ih, Nat.add_comm 1 fuel, runState, hs]
        rfl
      · refine .inr fun fuel => ?_
        rw [Nat.add_assoc, ih, Nat.add_comm 1 fuel]
        exact (hs fuel).mono hnext
    · refine .inr fun fuel => ?_
      rw [Nat.add_assoc]
      exact (ih (1 + fuel)).mono hnext

theorem runState_step {m : Machine} {l : Layered} {r : Except RuntimeError Outcome} {c : Console}
    (h : Layered.Stops m.artifact.blocks l r c)
    (hs : m.step l.flatten = (l.advance m.artifact.blocks).map Layered.Next.flatten) (fuel : Nat) :
    m.runState (fuel + 1) l.flatten = .ended r c := by
  cases h with
  | finished h =>
    rw [runState, hs, h]
    rfl
  | failed h =>
    rw [runState, hs, h]
    rfl

/-- A run that stops in the layers ends in the same way, unless it is cut short. -/
theorem runState_stops (m : Machine) {l l' : Layered} {n : Nat} {r : Except RuntimeError Outcome}
    {c : Console} (h : Layered.Reaches m.artifact.blocks l n l')
    (hstops : Layered.Stops m.artifact.blocks l' r c) (fuel : Nat) :
    m.runState (n + (fuel + 1)) l.flatten = .ended r c ∨
      CutShort c (m.runState (n + (fuel + 1)) l.flatten) := by
  rcases m.runState_reaches h with hrun | hcut
  · rw [hrun]
    rcases runState_matches (m.step_flatten l') with hs | hs
    · exact .inl (runState_step hstops hs fuel)
    · exact .inr ((hs fuel).mono hstops.continues)
  · exact .inr ((hcut (fuel + 1)).mono hstops.continues)

/-- A run is not over, or it is over before its end. -/
def Pending (x : Execution) : Prop := (∃ s, x = .unfinished s) ∨ ∃ c, CutShort c x

/-- With less fuel than the layers need, a run is not over. -/
theorem runState_pending (m : Machine) {l l' : Layered} {n fuel : Nat}
    (h : Layered.Reaches m.artifact.blocks l n l') (hfuel : fuel ≤ n) :
    Pending (m.runState fuel l.flatten) := by
  obtain ⟨mid, hmid⟩ := h.before hfuel
  rcases m.runState_reaches hmid with hrun | hcut
  · exact .inl ⟨mid.flatten, hrun 0⟩
  · exact .inr ⟨mid.console, hcut 0⟩

/-- A run that is over is not changed by more fuel. -/
theorem runState_mono (m : Machine) {r : Except RuntimeError Outcome} {c : Console} :
    ∀ {fuel more : Nat} {s : State}, fuel ≤ more → m.runState fuel s = .ended r c →
      m.runState more s = .ended r c
  | 0, _, _, _, h => by cases h
  | fuel + 1, more + 1, s, hle, h => by
    rw [runState] at h ⊢
    cases hs : m.step s with
    | error e => simpa only [hs] using h
    | ok progress =>
      cases progress with
      | finished o c => simpa only [hs] using h
      | running s' =>
        simp only [hs] at h ⊢
        exact runState_mono m (Nat.le_of_succ_le_succ hle) h

/-- Limits that leave room for something of a size. -/
def Allows (limits : Limits) (size : Nat) : Prop := size ≤ limits.operands ∧ size ≤ limits.frames

theorem Allows.mono {limits : Limits} {size size' : Nat} (h : Allows limits size)
    (hle : size' ≤ size) : Allows limits size' :=
  ⟨Nat.le_trans hle h.1, Nat.le_trans hle h.2⟩

/-- Where there is room for one more operand and one more frame, a step keeps up with the layers. -/
theorem step_allowed (m : Machine) {l : Layered}
    (h : Allows m.limits (l.height + l.activations.length + 1)) :
    m.step l.flatten = (l.advance m.artifact.blocks).map Layered.Next.flatten := by
  rcases m.step_flatten l with hs | ⟨-, hlimit⟩ | ⟨-, hlimit⟩
  · exact hs
  · have := h.1
    omega
  · have := h.2
    omega

/-- A run of finitely many steps fits within limits that are large enough. Each state needs some
room, and there are finitely many of them. -/
theorem runState_fits {blocks : Array Block} {l l' : Layered} {n : Nat}
    (h : Layered.Reaches blocks l n l') :
    ∃ size, ∀ m : Machine, m.artifact.blocks = blocks → Allows m.limits size →
      ∀ fuel, m.runState (n + fuel) l.flatten = m.runState fuel l'.flatten := by
  induction h with
  | refl => exact ⟨0, fun m _ _ fuel => by rw [Nat.zero_add]⟩
  | @step n mid l' h hstep ih =>
    -- one more step needs room for the state it is taken from, and for what it adds
    obtain ⟨size, hsize⟩ := ih
    refine ⟨max size (mid.height + mid.activations.length + 1), fun m hblocks hm fuel => ?_⟩
    have hs := m.step_allowed (hm.mono (Nat.le_max_right _ _))
    rw [hblocks, hstep] at hs
    rw [Nat.add_assoc, hsize m hblocks (hm.mono (Nat.le_max_left _ _)), Nat.add_comm 1 fuel,
      runState, hs]
    rfl

/-! ## Single blocks

The same for a run that begins with a block without parameters. -/

section

variable {b : Block} {index : Nat} {console : Console}

/-- A block without parameters begins as the only activation, if there may be one. -/
theorem invoke_eq (m : Machine) (hb : m.artifact.blocks[index]? = some b)
    (hparams : b.signature.params = []) (fuel : Nat) :
    m.invoke fuel index [] console =
        m.runState fuel (Layered.flatten ⟨console, .enter b [], []⟩) ∨
      m.limits.frames = 0 ∧ CutShort console (m.invoke fuel index [] console) := by
  have hlen : ([] : List Value).length = b.signature.params.length := by
    rw [hparams]
    rfl
  unfold invoke
  rcases m.begin_flatten hb hlen console with h | ⟨-, hlt⟩ | ⟨h, hframes⟩
  · rw [h]
    exact .inl rfl
  · cases hlt
  · rw [h]
    exact .inr ⟨hframes, _, _, rfl, rfl, .refl _⟩

theorem invoke_stops (m : Machine) (hb : m.artifact.blocks[index]? = some b)
    (hparams : b.signature.params = []) {l : Layered} {n fuel : Nat}
    {r : Except RuntimeError Outcome} {c : Console}
    (h : Layered.Reaches m.artifact.blocks ⟨console, .enter b [], []⟩ n l)
    (hstops : Layered.Stops m.artifact.blocks l r c) (hfuel : n < fuel) :
    m.invoke fuel index [] console = .ended r c ∨ CutShort c (m.invoke fuel index [] console) := by
  rcases m.invoke_eq hb hparams fuel with heq | ⟨-, hcut⟩
  · obtain ⟨more, rfl⟩ : ∃ more, fuel = n + (more + 1) := ⟨fuel - n - 1, by omega⟩
    rw [heq]
    exact m.runState_stops h hstops more
  · exact .inr (hcut.mono (h.continues.trans hstops.continues))

theorem invoke_pending (m : Machine) (hb : m.artifact.blocks[index]? = some b)
    (hparams : b.signature.params = []) {l : Layered} {n fuel : Nat}
    (h : Layered.Reaches m.artifact.blocks ⟨console, .enter b [], []⟩ n l) (hfuel : fuel ≤ n) :
    Pending (m.invoke fuel index [] console) := by
  rcases m.invoke_eq hb hparams fuel with heq | ⟨-, hcut⟩
  · rw [heq]
    exact m.runState_pending h hfuel
  · exact .inr ⟨console, hcut⟩

/-- Limits and fuel under which the run of a block ends as in the layers. -/
theorem invoke_fits {blocks : Array Block} (hb : blocks[index]? = some b)
    (hparams : b.signature.params = []) {l : Layered} {n : Nat} {r : Except RuntimeError Outcome}
    {c : Console} (h : Layered.Reaches blocks ⟨console, .enter b [], []⟩ n l)
    (hstops : Layered.Stops blocks l r c) :
    ∃ size, ∀ m : Machine, m.artifact.blocks = blocks → Allows m.limits size →
      ∀ fuel, n < fuel → m.invoke fuel index [] console = .ended r c := by
  obtain ⟨size, hsize⟩ := runState_fits h
  refine ⟨max size (l.height + l.activations.length + 1), fun m hblocks hm fuel hfuel => ?_⟩
  have hlast := hm.mono (Nat.le_max_right _ _)
  subst hblocks
  rcases m.invoke_eq hb hparams fuel with heq | ⟨hframes, -⟩
  · obtain ⟨more, rfl⟩ : ∃ more, fuel = n + (more + 1) := ⟨fuel - n - 1, by omega⟩
    rw [heq, hsize m rfl (hm.mono (Nat.le_max_left _ _))]
    exact runState_step hstops (m.step_allowed hlast) more
  · have := hlast.2
    omega

theorem invoke_mono (m : Machine) {arguments : List Value} {r : Except RuntimeError Outcome}
    {c : Console} {fuel more : Nat} (hle : fuel ≤ more)
    (h : m.invoke fuel index arguments console = .ended r c) :
    m.invoke more index arguments console = .ended r c := by
  unfold invoke at h ⊢
  cases hs : m.begin index arguments console with
  | error e => simpa only [hs] using h
  | ok s =>
    simp only [hs] at h ⊢
    exact m.runState_mono hle h

end

/-! ## Blocks by name

The machine looks names up in a table, and the artifact searches through its blocks. Both find the
first block of a name. -/

/-- A name leads to its first block, behind the entries that there are already. -/
theorem blocksByName_fold (name : String) (blocks : List (Block × Nat))
    (found : Std.HashMap String Nat) :
    (blocks.foldl (fun found q => found.insertIfNew q.1.name q.2) found)[name]? =
      found[name]?.or ((blocks.find? (·.1.name == name)).map Prod.snd) := by
  induction blocks generalizing found with
  | nil => simp
  | cons q blocks ih =>
    rw [List.foldl_cons, ih, Std.HashMap.getElem?_insertIfNew, List.find?_cons]
    by_cases hq : q.1.name = name
    · subst hq
      -- an entry that is there already stays; otherwise this block is the first of the name
      cases hfound : found[q.1.name]? with
      | none =>
        have hmem : q.1.name ∉ found := by
          rw [Std.HashMap.mem_iff_isSome_getElem?, hfound]
          simp
        simp [hmem]
      | some i =>
        have hmem : q.1.name ∈ found := by
          rw [Std.HashMap.mem_iff_isSome_getElem?, hfound]
          rfl
        simp [hmem]
    · rw [show (q.1.name == name) = false by simpa using hq]
      simp

/-- A machine finds the blocks that a search through its artifact finds. -/
theorem blocksByName_get (m : Machine) (name : String) :
    m.blocksByName[name]? = m.artifact.blockIndex? name := by
  have hsearch : m.artifact.blockIndex? name =
      m.artifact.blocks.toList.findIdx? (·.name == name) := by
    rw [← List.findIdx?_toArray]
    rfl
  unfold blocksByName
  rw [hsearch, ← Array.foldl_toList, Array.toList_zipIdx, blocksByName_fold,
    Std.HashMap.getElem?_empty, Option.none_or, List.findIdx?_eq_fst_find?_zipIdx]

/-! ## Runs of a program

A program has two blocks to begin with: the one that prepares it, if there is one, and the starting
block. -/

section

variable (m : Machine) {start init : Nat}

/-- The first block has to return before the other begins, which then goes on with the same
console. -/
theorem runProgram_eq (hstart : m.artifact.blockIndex? startName = some start)
    (hinit : m.artifact.blockIndex? initName = some init) (fuel : Nat) (c : Console) :
    m.runProgram fuel c =
      match m.invoke fuel init [] c with
      | .ended (.ok (.returned _)) c => m.invoke fuel start [] c
      | other => other := by
  simp only [runProgram, runStages, blocksByName_get, hstart, hinit]
  rfl

/-- A program is over as soon as its first block is, if that does not return. -/
theorem runProgram_cut (hstart : m.artifact.blockIndex? startName = some start)
    (hinit : m.artifact.blockIndex? initName = some init) {fuel : Nat} {c c' : Console}
    (h : CutShort c' (m.invoke fuel init [] c)) : CutShort c' (m.runProgram fuel c) := by
  obtain ⟨e, written, heq, hlimit, hcontinues⟩ := h
  refine ⟨e, written, ?_, hlimit, hcontinues⟩
  rw [m.runProgram_eq hstart hinit, heq]

theorem runProgram_mono (hstart : m.artifact.blockIndex? startName = some start)
    (hinit : m.artifact.blockIndex? initName = some init) {fuel more : Nat} {c c' : Console}
    {r : Except RuntimeError Outcome} (hle : fuel ≤ more)
    (h : m.runProgram fuel c = .ended r c') : m.runProgram more c = .ended r c' := by
  rw [m.runProgram_eq hstart hinit] at h ⊢
  cases hfirst : m.invoke fuel init [] c with
  | unfinished s =>
    rw [hfirst] at h
    cases h
  | ended r₁ c₁ =>
    rw [m.invoke_mono hle hfirst]
    rw [hfirst] at h
    rcases r₁ with e | (v | status)
    · exact h
    · exact m.invoke_mono hle h
    · exact h

end

end Machine

end TypedStack
