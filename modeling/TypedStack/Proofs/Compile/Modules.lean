import TypedStack.Compile.Module
import TypedStack.Proofs.Compile.Typed
/-!
# Compiled modules

The blocks of a module are those of its functions, under their names, and the reserved ones of its
entry. The program that they make up is typed, so it assembles and verifies unless it is too large
for the format.

A program is typed (`Assembly.Program.Typed`) if its blocks are, their names are distinct, reserved
names have the signatures that go with them, and every call has a block to go to. The first is known
from the code of each function. The others depend on the whole module, and are gathered here.
-/

set_option autoImplicit false

namespace TypedStack.Compile

open Assembly Evaluation

/-! ## Function tables

The table is built before any function is lowered, from the head of the list on. It maps a name to
the types of the parameters and of the result, and no more is ever known of a function when a call
of it is lowered. -/

/-- A table lists some functions. Their names are distinct and not reserved, so that an entry
determines the function it belongs to. -/
structure Lists (table : FunctionTable) (functions : List Function) : Prop where
  names : (functions.map (·.name)).Nodup
  free : ∀ f ∈ functions, isReservedName f.name = false
  entry : ∀ {name : String} {sig : FunctionSig},
    table[name]? = some sig ↔ ∃ f ∈ functions, f.name = name ∧ FunctionSig.ofFunction f = sig

namespace Lists

variable {table : FunctionTable} {functions : List Function}

theorem empty : Lists ∅ [] := ⟨List.nodup_nil, by simp, by simp⟩

/-- A name that the table does not contain is that of none of the functions. -/
theorem not_taken (h : Lists table functions) {name : String}
    (hnew : table.contains name = false) : ∀ f ∈ functions, f.name ≠ name := by
  intro f hf hname
  have hfound : table[name]? = some (.ofFunction f) := h.entry.mpr ⟨f, hf, hname, rfl⟩
  rw [Std.HashMap.contains_eq_isSome_getElem?, hfound] at hnew
  cases hnew

/-- A function with a new name is listed behind the others, and its entry hides none of theirs. -/
theorem insert (h : Lists table functions) {f : Function} (hfree : isReservedName f.name = false)
    (hnew : table.contains f.name = false) :
    Lists (table.insert f.name (.ofFunction f)) (functions ++ [f]) := by
  have hother := h.not_taken hnew
  refine ⟨?_, ?_, ?_⟩
  · rw [List.map_append, List.nodup_append]
    refine ⟨h.names, List.nodup_singleton _, fun name hname other hlast => ?_⟩
    obtain ⟨g, hg, rfl⟩ := List.mem_map.mp hname
    rw [List.mem_singleton.mp hlast]
    exact hother g hg
  · intro g hg
    rcases List.mem_append.mp hg with hg | hg
    · exact h.free g hg
    · exact List.mem_singleton.mp hg ▸ hfree
  · intro name sig
    rw [Std.HashMap.getElem?_insert]
    by_cases hname : f.name = name
    · subst hname
      simp only [beq_self_eq_true, if_true, Option.some.injEq, List.mem_append, List.mem_singleton]
      constructor
      · exact fun hsig => ⟨f, .inr rfl, rfl, hsig⟩
      · rintro ⟨g, hg | rfl, hgname, hsig⟩
        · exact absurd hgname (hother g hg)
        · exact hsig
    · simp only [beq_iff_eq, hname, if_false, h.entry, List.mem_append, List.mem_singleton]
      constructor
      · rintro ⟨g, hg, hgname, hsig⟩
        exact ⟨g, .inl hg, hgname, hsig⟩
      · rintro ⟨g, hg | rfl, hgname, hsig⟩
        · exact ⟨g, hg, hgname, hsig⟩
        · exact absurd hgname hname

end Lists

/-- One function is added. A reserved name is refused as one that is taken. -/
def addFunction (table : FunctionTable) (f : Function) : Except CompileError FunctionTable :=
  match if isReservedName f.name then none else table.add? f.name (.ofFunction f) with
  | some table => .ok table
  | none => .error (.broken f.loc (.duplicateFunction f.name))

theorem addFunction_ok {table table' : FunctionTable} {f : Function}
    (h : addFunction table f = .ok table') :
    isReservedName f.name = false ∧ table.contains f.name = false ∧
      table' = table.insert f.name (.ofFunction f) := by
  unfold addFunction at h
  cases hfree : isReservedName f.name with
  | true => simp [hfree] at h
  | false =>
    cases hnew : table.contains f.name with
    | true => simp [hfree, FunctionTable.add?, hnew] at h
    | false =>
      simp only [hfree, FunctionTable.add?, hnew, Bool.false_eq_true, if_false,
        Except.ok.injEq] at h
      exact ⟨rfl, rfl, h.symm⟩

theorem Lists.fold {rest done : List Function} {sofar table : FunctionTable}
    (h : Lists sofar done) (hrest : rest.foldlM addFunction sofar = .ok table) :
    Lists table (done ++ rest) := by
  -- the functions before the one that is added make up the table so far
  induction rest generalizing done sofar with
  | nil =>
    rw [List.foldlM_nil, except_pure_ok] at hrest
    rw [List.append_nil, ← hrest]
    exact h
  | cons f rest ih =>
    rw [List.foldlM_cons, except_bind_ok] at hrest
    obtain ⟨next, hnext, hrest⟩ := hrest
    obtain ⟨hfree, hnew, rfl⟩ := addFunction_ok hnext
    rw [List.append_cons]
    exact ih (h.insert hfree hnew) hrest

theorem functionTable_ok {functions : List Function} {table : FunctionTable}
    (h : functionTable functions = .ok table) : Lists table functions :=
  Lists.empty.fold h

/-! ## Blocks of a module

The functions come first, in their order. A module without an entry has no other blocks. -/

/-- A block is the compiled form of a function, or of the body of the program. -/
def Compiled (fs : FunctionTable) (name : String) (params : List Param) (result : ResultType)
    (body : List Stmt) (b : Assembly.Block) : Prop :=
  b.name = name ∧ ∃ scope inputs code labels,
    FunctionCode fs params result body b scope inputs code labels

/-- The blocks of the entry of a module: its body, which is a function of no parameters that gives
back an integer, and the two blocks that call it and open the input, which are always the same. -/
inductive EntryCode (fs : FunctionTable) : Option Entry → List Assembly.Block → Prop
  | absent : EntryCode fs none []
  | present {e : Entry} {main : Assembly.Block}
      (hmain : Compiled fs mainName [] (some .int) e.body main) :
      EntryCode fs (some e) [main, initBlock, startBlock]

/-- What a module is compiled to. Each function has one block, in the same place. -/
structure ModuleCode (m : Module) (p : Program) (fs : FunctionTable)
    (functions entry : List Assembly.Block) : Prop where
  table : Lists fs m.functions
  blocks : p.blocks.toList = functions ++ entry
  functions : List.Forall₂ (fun f b => Compiled fs f.name f.params f.result f.body b)
    m.functions functions
  entry : EntryCode fs m.entry entry

theorem entryBlocks_code {fs : FunctionTable} {entry : Option Entry}
    {blocks : List Assembly.Block} (h : entryBlocks fs entry = .ok blocks) :
    EntryCode fs entry blocks := by
  cases entry with
  | none =>
    cases h
    exact .absent
  | some e =>
    simp only [entryBlocks, except_bind_ok, except_pure_ok] at h
    obtain ⟨main, hmain, rfl⟩ := h
    exact .present (lowerBody_code hmain)

/-- What is known of a lowered module. Later proofs start from here, and not from the generator. -/
theorem lowerModule_code {options : Options} {m : Module} {p : Program}
    (h : lowerModule options m = .ok p) :
    ∃ fs functions entry, ModuleCode m p fs functions entry := by
  simp only [lowerModule, except_throw_bind] at h
  by_cases hname : Text.isIdentifier (options.artifactName.getD m.name) = true
  case neg => simp [hname, except_throw_ok] at h
  simp only [hname, if_true, except_bind_ok, except_pure_ok, except_mapM_ok] at h
  obtain ⟨fs, hfs, functions, hfunctions, entry, hentry, rfl⟩ := h
  exact ⟨fs, functions, entry, functionTable_ok hfs, rfl,
    hfunctions.imp fun f b hb => lowerBody_code hb, entryBlocks_code hentry⟩

/-! ## Typing

Calls within a module are resolved by name. The signature that a call was generated with comes from
the table, and that of the block from lowering the function; they are the same, since both are read
off the function. -/

/-- The block of a function has the signature that calls of it are generated with. -/
theorem Compiled.signature {fs : FunctionTable} {f : Function} {b : Assembly.Block}
    (h : Compiled fs f.name f.params f.result f.body b) :
    (FunctionSig.ofFunction f).signature = .ok b.signature := by
  obtain ⟨-, scope, inputs, code, labels, hcode⟩ := h
  rw [FunctionSig.signature_ok, hcode.signature]
  refine ⟨rfl, ?_⟩
  simp only [FunctionSig.ofFunction, hcode.params, List.map_map]
  rfl

theorem Compiled.callsKnown {fs : FunctionTable} {name : String} {params : List Param}
    {result : ResultType} {body : List Stmt} {b : Assembly.Block}
    (h : Compiled fs name params result body b) : CallsKnown fs b.instrs.toList := by
  obtain ⟨-, scope, inputs, code, labels, hcode⟩ := h
  rw [hcode.instrs]
  exact hcode.code.callsKnown.append (.zero result)

theorem requiredSignature?_eq_none {name : String} (h : isReservedName name = false) :
    requiredSignature? name = none := by
  simp only [isReservedName, Bool.or_eq_false_iff, beq_eq_false_iff_ne] at h
  simp [requiredSignature?, h]

namespace EntryCode

variable {fs : FunctionTable} {e : Option Entry} {blocks : List Assembly.Block}

theorem main_signature {body : List Stmt} {main : Assembly.Block}
    (h : Compiled fs mainName [] (some .int) body main) :
    main.signature = { result := some .int } := by
  obtain ⟨-, scope, inputs, code, labels, hcode⟩ := h
  have hinputs : inputs = [] := List.map_eq_nil_iff.mp hcode.params.symm
  rw [hcode.signature, hinputs]
  rfl

theorem names (h : EntryCode fs e blocks) : (blocks.map (·.name)).Nodup := by
  cases h with
  | absent => exact List.nodup_nil
  | present hmain =>
    simp only [List.map_cons, List.map_nil, hmain.1]
    decide

/-- The blocks of an entry have reserved names, and the signatures that go with them. -/
theorem reserved (h : EntryCode fs e blocks) : ∀ b ∈ blocks,
    isReservedName b.name = true ∧ requiredSignature? b.name = some b.signature := by
  cases h with
  | absent => simp
  | present hmain =>
    simp only [List.mem_cons, List.not_mem_nil, or_false, forall_eq_or_imp, forall_eq, hmain.1,
      main_signature hmain]
    decide

theorem typed (h : EntryCode fs e blocks) : ∀ b ∈ blocks, ∃ ann, b.Typed ann := by
  cases h with
  | absent => simp
  | present hmain =>
    simp only [List.mem_cons, List.not_mem_nil, or_false, forall_eq_or_imp, forall_eq]
    obtain ⟨-, scope, inputs, code, labels, hcode⟩ := hmain
    exact ⟨hcode.typed, initBlock_typed, startBlock_typed⟩

/-- The blocks of an entry call functions, except for the one that calls the main block. -/
theorem calls (h : EntryCode fs e blocks) {b : Assembly.Block} (hb : b ∈ blocks) :
    CallsKnown fs b.instrs.toList ∨
      ∀ callee : Callee, .op (.call callee) ∈ b.instrs.toList →
        ∃ b' ∈ blocks, b'.name = callee.name ∧ b'.signature = callee.signature := by
  cases h with
  | absent => cases hb
  | @present e main hmain =>
    simp only [List.mem_cons, List.not_mem_nil, or_false] at hb
    rcases hb with rfl | rfl | rfl
    · exact .inl hmain.callsKnown
    · exact .inl (.of_none (by simp [initBlock, Draft.start, Draft.emit]))
    · refine .inr fun callee hcall => ⟨main, List.mem_cons_self, ?_⟩
      have hc : callee = ⟨mainName, { result := some .int }⟩ := by
        simpa [startBlock, Draft.start, Draft.emit] using hcall
      rw [hc]
      exact ⟨hmain.1, main_signature hmain⟩

end EntryCode

namespace ModuleCode

variable {m : Module} {p : Program} {fs : FunctionTable} {functions entry : List Assembly.Block}

theorem mem_blocks (h : ModuleCode m p fs functions entry) {b : Assembly.Block} :
    b ∈ p.blocks ↔ b ∈ functions ∨ b ∈ entry := by
  rw [← Array.mem_toList_iff, h.blocks, List.mem_append]

theorem function_of_mem (h : ModuleCode m p fs functions entry) {b : Assembly.Block}
    (hb : b ∈ functions) :
    ∃ f ∈ m.functions, Compiled fs f.name f.params f.result f.body b :=
  forall₂_mem_right h.functions hb

theorem block_of_mem (h : ModuleCode m p fs functions entry) {f : Function}
    (hf : f ∈ m.functions) :
    ∃ b ∈ functions, Compiled fs f.name f.params f.result f.body b :=
  forall₂_mem_right h.functions.flip hf

theorem function_names (h : ModuleCode m p fs functions entry) :
    functions.map (·.name) = m.functions.map (·.name) :=
  map_eq_of_forall₂ (h.functions.imp fun _ _ hb => hb.1)

/-- The functions keep their names, and those of the entry are reserved. -/
theorem names (h : ModuleCode m p fs functions entry) :
    (p.blocks.toList.map (·.name)).Nodup := by
  rw [h.blocks, List.map_append, List.nodup_append, h.function_names]
  refine ⟨h.table.names, h.entry.names, ?_⟩
  rintro name hname other hother rfl
  obtain ⟨f, hf, rfl⟩ := List.mem_map.mp hname
  obtain ⟨b, hb, hsame⟩ := List.mem_map.mp hother
  have hreserved := (h.entry.reserved b hb).1
  rw [hsame, h.table.free f hf] at hreserved
  cases hreserved

/-- A block with a reserved name is one of the entry, and has the signature that the name
requires. -/
theorem reserved (h : ModuleCode m p fs functions entry) {b : Assembly.Block} (hb : b ∈ p.blocks)
    {sig : Signature} (hsig : requiredSignature? b.name = some sig) : b.signature = sig := by
  rcases h.mem_blocks.mp hb with hb | hb
  · obtain ⟨f, hf, hname, -⟩ := h.function_of_mem hb
    rw [hname, requiredSignature?_eq_none (h.table.free f hf)] at hsig
    cases hsig
  · rw [(h.entry.reserved b hb).2] at hsig
    exact Option.some.inj hsig

theorem blocks_typed (h : ModuleCode m p fs functions entry) {b : Assembly.Block}
    (hb : b ∈ p.blocks) : ∃ ann, b.Typed ann := by
  rcases h.mem_blocks.mp hb with hb | hb
  · obtain ⟨f, -, -, scope, inputs, code, labels, hcode⟩ := h.function_of_mem hb
    exact hcode.typed
  · exact h.entry.typed b hb

/-- What is called as the main block is the body of the entry. -/
theorem main_of_name (h : ModuleCode m p fs functions entry) {e : Entry} (he : m.entry = some e)
    {b : Assembly.Block} (hb : b ∈ p.blocks) (hname : b.name = mainName) :
    Compiled fs mainName [] (some .int) e.body b := by
  rcases h.mem_blocks.mp hb with hb | hb
  · obtain ⟨f, hf, hcompiled⟩ := h.function_of_mem hb
    have hfree := h.table.free f hf
    rw [← hcompiled.1, hname] at hfree
    cases hfree
  · have hentry := h.entry
    rw [he] at hentry
    cases hentry with
    | present hmain =>
      simp only [List.mem_cons, List.not_mem_nil, or_false] at hb
      rcases hb with rfl | rfl | rfl
      · exact hmain
      · exact absurd hname (by decide)
      · exact absurd hname (by decide)

theorem entry_blocks (h : ModuleCode m p fs functions entry) {e : Entry} (he : m.entry = some e) :
    initBlock ∈ p.blocks ∧ startBlock ∈ p.blocks := by
  have hentry := h.entry
  rw [he] at hentry
  rw [h.mem_blocks, h.mem_blocks]
  cases hentry with
  | present hmain => simp

/-- Where a call is to a function of the table, the function has a block under the same name and
with the signature of the call. -/
theorem known_callee (h : ModuleCode m p fs functions entry) {code : List Instr}
    (hknown : CallsKnown fs code) {callee : Callee} (hcall : .op (.call callee) ∈ code) :
    ∃ b ∈ p.blocks, b.name = callee.name ∧ b.signature = callee.signature := by
  obtain ⟨sig, hsig, hcallee⟩ := hknown callee hcall
  obtain ⟨f, hf, hname, rfl⟩ := h.table.entry.mp hsig
  obtain ⟨b, hb, hcompiled⟩ := h.block_of_mem hf
  refine ⟨b, h.mem_blocks.mpr (.inl hb), hcompiled.1.trans hname, ?_⟩
  rw [hcompiled.signature, Except.ok.injEq] at hcallee
  exact hcallee

/-- Every call has a block to go to. The only one that is not to a function of the table is that of
the starting block. -/
theorem callees (h : ModuleCode m p fs functions entry) {b : Assembly.Block} (hb : b ∈ p.blocks)
    {callee : Callee} (hcall : .op (.call callee) ∈ b.instrs.toList) :
    ∃ b' ∈ p.blocks, b'.name = callee.name ∧ b'.signature = callee.signature := by
  rcases h.mem_blocks.mp hb with hf | he
  · obtain ⟨f, -, hcompiled⟩ := h.function_of_mem hf
    exact h.known_callee hcompiled.callsKnown hcall
  · rcases h.entry.calls he with hknown | hmain
    · exact h.known_callee hknown hcall
    · obtain ⟨b', hb', hsame⟩ := hmain callee hcall
      exact ⟨b', h.mem_blocks.mpr (.inr hb'), hsame⟩

theorem typed (h : ModuleCode m p fs functions entry) : p.Typed :=
  ⟨h.names, fun _ hb _ hsig => h.reserved hb hsig, fun _ hb => h.blocks_typed hb,
    fun _ hb _ hcall => h.callees hb hcall⟩

end ModuleCode

/-! ## Assembling

A typed program is never refused by the assembler for what it is, only for its size. So of the
errors that assembling can end with, a compiled module meets none but those on capacity. -/

/-- A module that can be lowered assembles, with or without verifying, if and only if it fits the
format; where it does not, the error is that a field of the format is too narrow. It is never
rejected for its labels, its calls or its types, so whether a module compiles, and to what, does not
depend on verifying. -/
theorem lowered_modules_verify (options : Options) (m : Module) :
    (∀ p, lowerModule options m = .ok p → ∀ verify : Bool,
      ((∃ bytes, p.assemble verify = .ok bytes) ↔ p.Fits) ∧
        ∀ e, p.assemble verify = .error e → e.isCapacity = true) ∧
    compile { options with verify := true } m = compile { options with verify := false } m := by
  constructor
  · intro p hp verify
    obtain ⟨fs, functions, entry, hcode⟩ := lowerModule_code hp
    have htyped := hcode.typed
    rw [htyped.assemble_eq verify]
    cases ha : p.encode with
    | ok a =>
      refine ⟨⟨fun _ => p.encode_fits ha, fun _ => ⟨a.toBytes, rfl⟩⟩, ?_⟩
      intro e he
      cases he
    | error e =>
      -- an error of the encoder is one of capacity, and then the program does not fit
      obtain ⟨hcap, hlarge⟩ := htyped.encode_error ha
      refine ⟨⟨?_, fun hfits => absurd hfits hlarge⟩, ?_⟩
      · rintro ⟨bytes, hbytes⟩
        cases hbytes
      · intro e' he'
        cases he'
        exact hcap
  -- lowering does not look at whether to verify
  · have hcompile : ∀ verify, compile { options with verify } m =
        (lowerModule options m >>= fun p =>
          (p.assemble verify).mapError fun e => .internal (.assembly e)) := fun _ => rfl
    rw [hcompile, hcompile]
    cases hp : lowerModule options m with
    | error e => rfl
    | ok p =>
      obtain ⟨fs, functions, entry, hcode⟩ := lowerModule_code hp
      show (p.assemble true).mapError _ = (p.assemble false).mapError _
      rw [hcode.typed.assemble_eq true, hcode.typed.assemble_eq false]

/-- Counts up to three with a function, and prints what it counts. -/
def countingModule : Module where
  functions := [{
    name := "next"
    result := some .int
    params := [⟨"x", some .int⟩]
    body := [.ret {} (some (.arith {} .add (.variable {} "x") (.int {} 1)))] }]
  entry := some {
    body := [.declare {} "i" (some .int) none,
      .loop {} [.assign {} "i" (.call {} "next" [.variable {} "i"]), .print {} (.variable {} "i")]
        (.comparison {} .lt (.variable {} "i") (.int {} 3)),
      .ret {} (some (.variable {} "i"))] }

/-- The module is lowered step by step, and its counts are compared with the widths of their
fields. -/
theorem countingModule_lowers : ∃ p, lowerModule {} countingModule = .ok p ∧ p.Fits := by
  rw [lowerModule_run (by decide +kernel)]
  simp [countingModule, functionTable_eq, isReservedName_eq, lowerBody_run, Scope.ofParams_eq]
  decide

theorem lowered_modules_verify_counting :
    ∃ p, lowerModule {} countingModule = .ok p ∧ p.Fits ∧
      ∃ bytes, p.assemble true = .ok bytes := by
  obtain ⟨p, hp, hfits⟩ := countingModule_lowers
  exact ⟨p, hp, hfits, ((lowered_modules_verify {} countingModule).1 p hp true).1.mpr hfits⟩

end TypedStack.Compile
