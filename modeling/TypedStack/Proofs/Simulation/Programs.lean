import TypedStack.Proofs.Simulation.Calls
/-!
# Compiled programs

Running the artifact of a module does what the module means (`compiled_modules_run`): the program
ends with the status or the error that the module ends with, after the same lines were written,
unless a limit of the machine stops it on the way; limits that are large enough do not.

A module means something with no bound on its calls and rounds, while an evaluation is cut off at
some number of them. That a module runs for ever is that it is cut off at every number; then the
machine takes more steps than any number, since it keeps up.
-/

set_option autoImplicit false

namespace TypedStack

/-- A run of a program comes to its end, with a result and a console. -/
def Machine.Yields (m : Machine) (input : List UInt8) (r : Except RuntimeError Outcome)
    (c : Console) : Prop :=
  ∃ fuel, m.runProgram fuel (.ofInput input) = .ended r c

namespace Simulation

open Assembly Compile Evaluation

variable {m : Module} {p : Program} {fs : FunctionTable} {functions entry : List Assembly.Block}
  {a : Artifact}

/-! ## Blocks of the entry

The machine runs two blocks, one after the other: the first opens the input and returns, the second
calls the body of the program and exits with what this gives back. -/

/-- The block of a name is the encoded form of the block that has it. -/
theorem blockIndex?_eq (h : ModuleCode m p fs functions entry) (ha : p.encode = .ok a)
    {b : Assembly.Block} (hb : b ∈ p.blocks) :
    ∃ k e, a.blockIndex? b.name = some k ∧ a.blocks[k]? = some e ∧ Encodes p.directory b e := by
  obtain ⟨-, -, -, hblocks⟩ := Program.encode_ok ha
  obtain ⟨e₀, he₀, hencodes₀⟩ := forall₂_mem_right hblocks.flip (Array.mem_toList_iff.mpr hb)
  unfold Artifact.blockIndex?
  cases hk : a.blocks.findIdx? (·.name == b.name) with
  | none =>
    rw [Array.findIdx?_eq_none_iff] at hk
    have hne := hk e₀ (Array.mem_toList_iff.mp he₀)
    simp [hencodes₀.name] at hne
  | some k =>
    obtain ⟨hlt, hname, -⟩ := Array.findIdx?_eq_some_iff_getElem.mp hk
    have hget : a.blocks.toList[k]? = some a.blocks[k] := by simp [hlt]
    obtain ⟨b', hb', hencodes⟩ := forall₂_getElem? hblocks.flip hget
    have hsame : b'.name = b.name := hencodes.name.symm.trans (beq_iff_eq.mp hname)
    obtain rfl : b' = b := List.inj_on_of_nodup_map h.names (List.mem_of_getElem? hb')
      (Array.mem_toList_iff.mpr hb) hsame
    exact ⟨k, a.blocks[k], rfl, by simp [hlt], hencodes⟩

theorem enter_site {d : Directory} {b : Assembly.Block} {e : TypedStack.Block}
    (h : Encodes d b e) (hslots : b.slots = #[]) (c : Console) :
    (⟨c, .enter e [], []⟩ : Layered) = (siteOf a h).state c 0 [] [] [] := by
  simp [Activation.enter, h.slots, hslots, siteOf]

/-- The block that makes the input ready returns at once. -/
theorem init_runs {d : Directory} {e : TypedStack.Block} (h : Encodes d initBlock e)
    (input : List UInt8) :
    ∃ l, Layered.Reaches a.blocks ⟨.ofInput input, .enter e [], []⟩ 1 l ∧
      Layered.Stops a.blocks l (.ok (.returned none)) (.ready input) := by
  rw [enter_site (a := a) h rfl]
  have hall := (siteOf a h).spans_all
  obtain ⟨k, hopen, hreturn⟩ := Site.spans_cons.mp hall
  exact ⟨_, .single (hopen.openInput _ [] [] []), .finished (hreturn.retVoid_last _ [] [])⟩

/-- The starting block follows the program. It never comes to a value, since it ends with an
exit. -/
theorem start_follows (h : ModuleCode m p fs functions entry) (ha : p.encode = .ok a)
    {e : Entry} (hentry : m.entry = some e) {start : TypedStack.Block}
    (hstart : Encodes p.directory startBlock start) {c : Console} (hc : c.opened = true) (n : Nat) :
    Follows a.blocks n ⟨c, .enter start [], []⟩ (m.evaluate n c) fun _ _ _ => False := by
  obtain ⟨-, hsize, -, hblocks⟩ := Program.encode_ok ha
  rw [enter_site (a := a) hstart rfl]
  have hall := (siteOf a hstart).spans_all
  obtain ⟨k, hcall, hexit⟩ := Site.spans_cons.mp hall
  obtain ⟨i, hi⟩ := hcall.resolved
  obtain ⟨main, code, hmem, hname, hsig, hcode, hencodes⟩ :=
    Program.resolve_encoded hsize hblocks hi
  have hparams : ([] : List Value).length = main.signature.params.length := by
    rw [hsig]
    rfl
  have hstep := hcall.call c [] [] [] hi hcode (hparams.trans (by rw [hencodes.signature]))
  have hmain := h.main_of_name hentry hmem hname
  simp only [Module.evaluate, hentry]
  refine .step hstep ((Compiled.follows hmain hencodes (serves h ha n) hparams hc
    ⟨start, k, [], []⟩ []).andThen ?_)
  rintro v c' l ⟨hv, -, rfl⟩
  obtain ⟨w, rfl, hw⟩ := Option.map_eq_some_iff.mp hv
  cases w with
  | int status => exact .ended (.finished (hexit.exit c' [] [] [] status))
  | char | float | bool | double => cases hw

/-! ## Runs of a program

What is known of the two blocks is kept in `Launches`, which says nothing of limits. The lemmas on
the machine then say what limits do to it. -/

/-- The two blocks that a compiled program is run with. -/
structure Launches (a : Artifact) (m : Module) (start init : Nat) : Prop where
  startAt : a.blockIndex? startName = some start
  initAt : a.blockIndex? initName = some init
  /-- The first block returns when the input is ready. -/
  prepares : ∀ input : List UInt8, ∃ b l, a.blocks[init]? = some b ∧ b.signature.params = [] ∧
    Layered.Reaches a.blocks ⟨.ofInput input, .enter b [], []⟩ 1 l ∧
      Layered.Stops a.blocks l (.ok (.returned none)) (.ready input)
  /-- The second block follows the program. -/
  follows : ∀ (input : List UInt8) (n : Nat), ∃ b, a.blocks[start]? = some b ∧
    b.signature.params = [] ∧ Follows a.blocks n ⟨.ready input, .enter b [], []⟩
      (m.evaluate n (.ready input)) fun _ _ _ => False

theorem launches (h : ModuleCode m p fs functions entry) (ha : p.encode = .ok a) {e : Entry}
    (hentry : m.entry = some e) : ∃ start init, Launches a m start init := by
  obtain ⟨hinit, hstart⟩ := h.entry_blocks hentry
  obtain ⟨start, startCode, hstartIndex, hstartAt, hstartCode⟩ := blockIndex?_eq h ha hstart
  obtain ⟨init, initCode, hinitIndex, hinitAt, hinitCode⟩ := blockIndex?_eq h ha hinit
  refine ⟨start, init, hstartIndex, hinitIndex, fun input => ?_, fun input n => ?_⟩
  · obtain ⟨l, hreaches, hstops⟩ := init_runs (a := a) hinitCode input
    exact ⟨initCode, l, hinitAt, by rw [hinitCode.signature]; rfl, hreaches, hstops⟩
  · exact ⟨startCode, hstartAt, by rw [hstartCode.signature]; rfl,
      start_follows h ha hentry hstartCode rfl n⟩

namespace Launches

variable {start init : Nat} {input : List UInt8}

/-- A program ends or runs for ever; it is never stuck. An evaluation that is not cut off for some
number of calls has ended, and a run that is followed is not stuck. -/
theorem ends_or_diverges (h : Launches a m start init) (input : List UInt8) :
    (∃ r c, m.Ends input r c) ∨ m.Diverges input := by
  by_cases hends : ∃ r c, m.Ends input r c
  · exact .inl hends
  · refine .inr fun n => ?_
    obtain ⟨b, -, -, hfollows⟩ := h.follows input n
    cases hn : m.evaluate n (.ready input) with
    | value v => exact v.elim
    | ended r c => exact absurd ⟨r, c, n, hn⟩ hends
    | unfinished => rfl
    | stuck =>
      rw [hn] at hfollows
      exact hfollows.elim

/-- Once the input is ready, the program is what its starting block does. -/
theorem runProgram_start (h : Launches a m start init) (limits : Limits) {fuel : Nat}
    (hfuel : 1 < fuel) (input : List UInt8) :
    (Machine.mk a limits).runProgram fuel (.ofInput input) =
        (Machine.mk a limits).invoke fuel start [] (.ready input) ∨
      Machine.CutShort (.ready input) ((Machine.mk a limits).runProgram fuel (.ofInput input)) := by
  obtain ⟨b, l, hb, hparams, hreaches, hstops⟩ := h.prepares input
  rcases (Machine.mk a limits).invoke_stops hb hparams hreaches hstops hfuel with hready | hcut
  · left
    rw [Machine.runProgram_eq _ h.startAt h.initAt, hready]
  · exact .inr (Machine.runProgram_cut _ h.startAt h.initAt hcut)

/-- A program that ends does so on the machine, or the machine stops it at a limit. What was written
up to then is the beginning of what the program writes. -/
theorem yields (h : Launches a m start init) {r : Except RuntimeError Int32} {c : Console}
    (hends : m.Ends input r c) (limits : Limits) :
    (Machine.mk a limits).Yields input (r.map .exited) c ∨
      ∃ e c', e.isLimit = true ∧ c'.Continues c ∧
        (Machine.mk a limits).Yields input (.error e) c' := by
  obtain ⟨n, hn⟩ := hends
  obtain ⟨b, hb, hparams, hfollows⟩ := h.follows input n
  rw [hn] at hfollows
  obtain ⟨k, l, hreaches, hstops⟩ := hfollows
  have hcut : ∀ {fuel : Nat}, Machine.CutShort c
      ((Machine.mk a limits).runProgram fuel (.ofInput input)) →
      ∃ e c', e.isLimit = true ∧ c'.Continues c ∧
        (Machine.mk a limits).Yields input (.error e) c' := by
    rintro fuel ⟨e, c', heq, hlimit, hcontinues⟩
    exact ⟨e, c', hlimit, hcontinues, fuel, heq⟩
  have hfuel : k < k + 2 := by omega
  rcases h.runProgram_start limits (show 1 < k + 2 by omega) input with hstart | hearly
  · rcases (Machine.mk a limits).invoke_stops hb hparams hreaches hstops hfuel with heq | hlate
    · exact .inl ⟨k + 2, hstart.trans heq⟩
    · exact .inr (hcut (hstart ▸ hlate))
  · exact .inr (hcut (hearly.mono (hreaches.continues.trans hstops.continues)))

/-- Limits that are large enough do not stop a program that ends. -/
theorem yields_within (h : Launches a m start init) {r : Except RuntimeError Int32} {c : Console}
    (hends : m.Ends input r c) :
    ∃ size, ∀ limits, Machine.Allows limits size →
      (Machine.mk a limits).Yields input (r.map .exited) c := by
  obtain ⟨n, hn⟩ := hends
  obtain ⟨b, hb, hparams, hfollows⟩ := h.follows input n
  rw [hn] at hfollows
  obtain ⟨k, l, hreaches, hstops⟩ := hfollows
  obtain ⟨size, hsize⟩ := Machine.invoke_fits hb hparams hreaches hstops
  obtain ⟨b', l', hb', hparams', hreaches', hstops'⟩ := h.prepares input
  obtain ⟨size', hsize'⟩ := Machine.invoke_fits hb' hparams' hreaches' hstops'
  refine ⟨max size size', fun limits hlimits => ⟨k + 2, ?_⟩⟩
  have hready := hsize' (Machine.mk a limits) rfl (hlimits.mono (Nat.le_max_right _ _)) (k + 2)
    (by omega)
  rw [Machine.runProgram_eq _ h.startAt h.initAt, hready]
  exact hsize (Machine.mk a limits) rfl (hlimits.mono (Nat.le_max_left _ _)) (k + 2) (by omega)

/-- A program that runs for ever does so on the machine, or the machine stops it at a limit. -/
theorem pending (h : Launches a m start init) (hdiverges : m.Diverges input) (limits : Limits)
    (fuel : Nat) :
    Machine.Pending ((Machine.mk a limits).runProgram fuel (.ofInput input)) := by
  obtain ⟨b, hb, hparams, hfollows⟩ := h.follows input fuel
  rw [hdiverges fuel] at hfollows
  obtain ⟨k, l, hk, hreaches⟩ := hfollows
  -- with fuel for one step at most, not even the block that makes the input ready has returned
  by_cases hfuel : 1 < fuel
  · rcases h.runProgram_start limits hfuel input with hstart | hcut
    · rw [hstart]
      exact (Machine.mk a limits).invoke_pending hb hparams hreaches hk
    · exact .inr ⟨_, hcut⟩
  · obtain ⟨b', l', hb', hparams', hreaches', -⟩ := h.prepares input
    rcases (Machine.mk a limits).invoke_pending hb' hparams' hreaches'
      (Nat.le_of_not_lt hfuel) with ⟨s, hs⟩ | ⟨c, hcut⟩
    · refine .inl ⟨s, ?_⟩
      rw [Machine.runProgram_eq _ h.startAt h.initAt, hs]
    · exact .inr ⟨c, Machine.runProgram_cut _ h.startAt h.initAt hcut⟩

/-- The machine comes to one end, whatever fuel it is given. -/
theorem yields_unique (h : Launches a m start init) {limits : Limits}
    {r r' : Except RuntimeError Outcome} {c c' : Console}
    (hyields : (Machine.mk a limits).Yields input r c)
    (hyields' : (Machine.mk a limits).Yields input r' c') : r' = r ∧ c' = c := by
  obtain ⟨fuel, hfuel⟩ := hyields
  obtain ⟨fuel', hfuel'⟩ := hyields'
  have hmore := Machine.runProgram_mono _ h.startAt h.initAt (Nat.le_max_left fuel fuel') hfuel
  have hmore' := Machine.runProgram_mono _ h.startAt h.initAt (Nat.le_max_right fuel fuel') hfuel'
  rw [hmore] at hmore'
  cases hmore'
  exact ⟨rfl, rfl⟩

/-- What the machine comes to, other than a limit, is what the program comes to. Were it to run for
ever, the machine would not come to an end. -/
theorem ends_of_yields (h : Launches a m start init) {limits : Limits}
    {r : Except RuntimeError Outcome} {c : Console}
    (hyields : (Machine.mk a limits).Yields input r c) :
    (∃ e, r = .error e ∧ e.isLimit = true) ∨ ∃ r', r = r'.map .exited ∧ m.Ends input r' c := by
  rcases h.ends_or_diverges input with ⟨r', c', hends⟩ | hdiverges
  · rcases h.yields hends limits with hsame | ⟨e, written, hlimit, -, hcut⟩
    · obtain ⟨rfl, rfl⟩ := h.yields_unique hyields hsame
      exact .inr ⟨r', rfl, hends⟩
    · exact .inl ⟨e, (h.yields_unique hyields hcut).1.symm, hlimit⟩
  · obtain ⟨fuel, hfuel⟩ := hyields
    rcases h.pending hdiverges limits fuel with ⟨s, hs⟩ | ⟨_, e, _, heq, hlimit, -⟩
    · rw [hfuel] at hs
      cases hs
    · rw [hfuel] at heq
      cases heq
      exact .inl ⟨e, rfl, hlimit⟩

end Launches

/-- A compiled program does what its module means. The module ends or runs for ever on every input.
Where it ends, with a status or an error and with lines written, so does the machine, unless it
stops at a limit with a part of these lines written; and it does not stop under limits that are
large enough. Whatever else the machine comes to is what the module comes to, so a module that runs
for ever comes to nothing there but a limit. -/
theorem compiled_modules_run {options : Options} {m : Module} {p : Program} {a : Artifact}
    (hlower : lowerModule options m = .ok p) (hencode : p.encode = .ok a)
    (hentry : m.entry.isSome = true) (input : List UInt8) :
    ((∃ r c, m.Ends input r c) ∨ m.Diverges input) ∧
    (∀ r c, m.Ends input r c →
      (∀ limits, (Machine.mk a limits).Yields input (r.map .exited) c ∨
        ∃ e c', e.isLimit = true ∧ c'.Continues c ∧
          (Machine.mk a limits).Yields input (.error e) c') ∧
      ∃ size, ∀ limits, Machine.Allows limits size →
        (Machine.mk a limits).Yields input (r.map .exited) c) ∧
    ∀ limits r c, (Machine.mk a limits).Yields input r c →
      (∃ e, r = .error e ∧ e.isLimit = true) ∨ ∃ r', r = r'.map .exited ∧ m.Ends input r' c := by
  obtain ⟨e, he⟩ := Option.isSome_iff_exists.mp hentry
  obtain ⟨fs, functions, entry, hcode⟩ := lowerModule_code hlower
  obtain ⟨start, init, h⟩ := launches hcode hencode he
  exact ⟨h.ends_or_diverges input, fun r c hends => ⟨h.yields hends, h.yields_within hends⟩,
    fun limits r c hyields => h.ends_of_yields hyields⟩

/-- The counting module ends with three, and so does what it is compiled to. -/
theorem compiled_modules_run_counting :
    ∃ p a, lowerModule {} countingModule = .ok p ∧ p.encode = .ok a ∧
      countingModule.entry.isSome = true ∧
      countingModule.Ends [] (.ok 3) { Console.ready [] with outputLines := ["3", "2", "1"] } ∧
      ∃ size, ∀ limits, Machine.Allows limits size →
        (Machine.mk a limits).Yields [] (.ok (.exited 3))
        { Console.ready [] with outputLines := ["3", "2", "1"] } := by
  obtain ⟨p, hp, hfits⟩ := countingModule_lowers
  obtain ⟨fs, functions, entry, hcode⟩ := lowerModule_code hp
  obtain ⟨a, ha⟩ := hcode.typed.encode_of_fits hfits
  have hends : countingModule.Ends [] (.ok 3)
      { Console.ready [] with outputLines := ["3", "2", "1"] } := ⟨4, by rfl⟩
  have hrun := compiled_modules_run hp ha rfl []
  exact ⟨p, a, hp, ha, rfl, hends, (hrun.2.1 _ _ hends).2⟩

end Simulation

end TypedStack
