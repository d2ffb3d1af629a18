import TypedStack.Proofs.Compile.Modules
import TypedStack.Proofs.Simulation.Statements
/-!
# Calls

A compiled function follows a call of it: its slots start with the arguments and zeros that its
environment starts with, its body is followed statement by statement, and a body that runs off its
end gives back the zero value. By induction on the calls that are allowed inside each other, every
function of a module is served by its block (`serves`).

This closes the circle: expressions were followed under the assumption that calls are, and a call is
followed since its body is, with one call fewer allowed inside it.
-/

set_option autoImplicit false

namespace TypedStack.Simulation

open Assembly Compile Evaluation

/-! ## The start of a call

An activation has slots for all variables of the function, not only for those declared so far. The
environment of the tree has all of them from the start as well, with their zero values. -/

theorem mem_of_lookup {name : String} {v : Value} :
    ∀ {l : List (String × Value)}, l.lookup name = some v → (name, v) ∈ l
  | (key, w) :: l, h => by
    rw [List.lookup_cons] at h
    split at h
    · next hkey =>
      cases h
      exact beq_iff_eq.mp hkey ▸ List.mem_cons_self
    · exact List.mem_cons_of_mem _ (mem_of_lookup h)

theorem lookup_of_mem {name : String} {v : Value} :
    ∀ {l : List (String × Value)}, (name, v) ∈ l → ∃ w, l.lookup name = some w
  | (key, w) :: l, h => by
    rw [List.lookup_cons]
    split
    · exact ⟨w, rfl⟩
    · next hkey =>
      rcases List.mem_cons.mp h with h | h
      · cases h
        simp at hkey
      · exact lookup_of_mem h

/-- Values for all variables of a scope, in the order of their slots, make up an environment. Names
are distinct, so the first value found under a name is the only one. -/
theorem holds_lookup {scope : Scope} (hscope : scope.Ordered) {values : List (String × Value)}
    (hvalues : values.map (fun p => (p.1, p.2.type)) = scope.declarations) :
    Holds (fun name => scope.find? name) (fun name => values.lookup name)
      (values.map Prod.snd) := by
  -- a name has one slot only, so that any value found under it is the one in the slot
  have hat : ∀ {i : Nat} {name : String} {w : Value}, values[i]? = some (name, w) →
      ∃ v : Variable, scope.find? name = some v ∧ v.slot.toNat = i ∧ w.type = v.type := by
    intro i name w hi
    have hdeclared : scope.declarations[i]? = some (name, w.type) := by
      rw [← hvalues, List.getElem?_map, hi]
      rfl
    rw [Scope.declarations, List.getElem?_map, Option.map_eq_some_iff] at hdeclared
    obtain ⟨v, hv, hd⟩ := hdeclared
    rw [Array.getElem?_toList] at hv
    rw [Variable.declaration, Prod.mk.injEq] at hd
    obtain ⟨rfl, ht⟩ := hd
    exact ⟨v, hscope.names.mpr ⟨Array.mem_of_getElem? hv, rfl⟩, hscope.slot hv, ht.symm⟩
  intro name v hv
  obtain ⟨i, hi⟩ := Array.mem_iff_getElem?.mp (hscope.names.mp hv).1
  have hdeclared : (values.map fun p => (p.1, p.2.type))[i]? = some v.declaration := by
    rw [hvalues, Scope.declarations, List.getElem?_map, Array.getElem?_toList, hi]
    rfl
  rw [List.getElem?_map, Option.map_eq_some_iff] at hdeclared
  obtain ⟨⟨key, val⟩, hval, hd⟩ := hdeclared
  rw [Variable.declaration, Prod.mk.injEq] at hd
  obtain ⟨rfl, htype⟩ := hd
  have hname : v.name = name := (hscope.names.mp hv).2
  rw [hname] at hval
  obtain ⟨w, hw⟩ := lookup_of_mem (List.mem_of_getElem? hval)
  obtain ⟨j, hj⟩ := List.mem_iff_getElem?.mp (mem_of_lookup hw)
  obtain ⟨v', hv', hslot, -⟩ := hat hj
  obtain rfl : v' = v := Option.some.inj (hv'.symm.trans hv)
  have hij : i = j := (hscope.slot hi).symm.trans hslot
  rw [← hij, hval] at hj
  cases hj
  refine ⟨val, hw, ?_, htype⟩
  rw [hscope.slot hi, List.getElem?_map, hval]
  rfl

/-- The parameters of a call with the arguments converted to their types. -/
theorem bindArguments_eq : ∀ (inputs : List (String × ValueType)) (args : List Value),
    args.length = inputs.length →
    ∃ bound, bindArguments (inputs.map paramOf) args = some bound ∧
      bound.map (fun p => (p.1, p.2.type)) = inputs ∧
      bound.map Prod.snd = castAll args (inputs.map Prod.snd)
  | [], [], _ => ⟨[], rfl, rfl, rfl⟩
  | (name, t) :: inputs, v :: args, h => by
    obtain ⟨bound, hbound, hnames, hvalues⟩ := bindArguments_eq inputs args (Nat.succ.inj h)
    refine ⟨(name, v.cast t) :: bound, ?_, ?_, ?_⟩
    · simp [paramOf, bindArguments, hbound]
    · simp [hnames, Value.type_cast]
    · simp [hvalues, castAll]

/-! ## The body of a function

From a new activation to the return. What the function was compiled to is known as `FunctionCode`.
-/

section

variable {fs : FunctionTable} {params : List Param} {result : ResultType} {body : List Stmt}
  {blk : Assembly.Block} {scope : Scope} {inputs : List (String × ValueType)} {code : List Instr}
  {labels : Nat} {x : Site} {calls : Calls} {n : Nat}

/-- The variables of a function lie in slots of its block, each in its own. -/
theorem site_scoped (h : FunctionCode fs params result body blk scope inputs code labels)
    (hslots : x.block.slots = blk.slots) : x.Scoped fun name => scope.find? name := by
  have hbound : x.block.slots.size = scope.bound.size := by
    rw [hslots, ← Array.length_toList, h.slots, List.length_map, Array.length_toList]
  constructor
  · intro name v hv
    obtain ⟨i, hi⟩ := Array.mem_iff_getElem?.mp (h.ordered.names.mp hv).1
    rw [h.ordered.slot hi, hbound]
    exact (Array.getElem?_eq_some_iff.mp hi).1
  · intro name name' v v' hv hv' hslot
    obtain ⟨hmem, rfl⟩ := h.ordered.names.mp hv
    obtain ⟨hmem', rfl⟩ := h.ordered.names.mp hv'
    obtain ⟨i, hi⟩ := Array.mem_iff_getElem?.mp hmem
    obtain ⟨j, hj⟩ := Array.mem_iff_getElem?.mp hmem'
    rw [h.ordered.slot hi, h.ordered.slot hj] at hslot
    rw [hslot, hj] at hi
    cases hi
    rfl

/-- The slots of a new activation hold the environment in which the body begins. -/
theorem holds_start (h : FunctionCode fs params result body blk scope inputs code labels)
    (hslots : x.block.slots = blk.slots) (hsig : x.block.signature = blk.signature)
    {args : List Value} {bound : List (String × Value)}
    (hnames : bound.map (fun p => (p.1, p.2.type)) = inputs)
    (hvalues : bound.map Prod.snd = castAll args (inputs.map Prod.snd)) :
    Holds (fun name => scope.find? name) (startEnv bound body)
      (Activation.enter x.block (castAll args x.block.signature.params)).slots := by
  have hparams : x.block.signature.params = inputs.map Prod.snd := by rw [hsig, h.signature]
  have htypes : x.block.slots.toList =
      inputs.map Prod.snd ++ (Stmt.declaredAll body).map Prod.snd := by
    rw [hslots, h.slots, ← List.map_append, ← h.declarations, Scope.declarations, List.map_map]
    rfl
  -- the machine fills up the slots behind the arguments as `startEnv` fills up the variables
  have hstart : (Activation.enter x.block (castAll args x.block.signature.params)).slots =
      (bound ++ (Stmt.declaredAll body).map fun d => (d.1, Value.zero d.2)).map Prod.snd := by
    simp [Activation.enter, htypes, hparams, hvalues, Function.comp_def]
  rw [hstart]
  refine holds_lookup h.ordered ?_
  rw [List.map_append, hnames, h.declarations, List.map_map]
  congr 1
  simp [Function.comp_def, Value.type_zero]

/-- The body is followed statement by statement. If it does not return by itself, the return behind
it gives back the zero value, as the tree does. -/
theorem body_follows (h : FunctionCode fs params result body blk scope inputs code labels)
    (hslots : x.block.slots = blk.slots) (hsig : x.block.signature = blk.signature)
    (hinstrs : x.instrs = blk.instrs.toList) (hserves : Serves x.blocks x.directory fs n calls)
    {args : List Value} (hlen : args.length = x.block.signature.params.length) {c : Console}
    (hc : c.opened = true) (caller : Activation) (waiting : List Activation) :
    Follows x.blocks n
      ⟨c, .enter x.block (castAll args x.block.signature.params), caller :: waiting⟩
      (callBody ⟨calls, n, result⟩ params body args c) (Returned caller waiting result) := by
  have hinputs : args.length = inputs.length := by
    rw [hlen, hsig, h.signature, List.length_map]
  obtain ⟨bound, hbound, hnames, hvalues⟩ := bindArguments_eq inputs args hinputs
  have hholds := holds_start h hslots hsig hnames hvalues
  have hall := x.spans_all
  rw [hinstrs, h.instrs] at hall
  obtain ⟨last, hcode, hzero⟩ := Site.spans_append.mp hall
  simp only [callBody, h.params, hbound]
  refine (executesAll (site_scoped h hslots) hserves h.code 0 last hcode _ _ c caller waiting
    hholds hc).andThen ?_
  intro control c' l hafter
  cases control with
  | returned v => exact .value hafter
  | next env =>
    obtain ⟨hc', slots, -, rfl⟩ := hafter
    obtain ⟨steps, hsteps⟩ := hzero.zeroCode c' slots [] waiting
    exact .after hsteps (.value ⟨Value.map_type_zero result, hc', rfl⟩)

end

/-! ## The functions of a module

Functions are found by name on the tree and by number on the machine. -/

section

variable {m : Module} {p : Program} {fs : FunctionTable} {functions entry : List Assembly.Block}
  {a : Artifact}

/-- A function is the one that its name stands for. -/
theorem function?_of_mem (h : Lists fs m.functions) {f : Function} (hf : f ∈ m.functions) :
    m.function? f.name = some f := by
  unfold Module.function?
  cases hg : m.functions.find? (·.name == f.name) with
  | none =>
    rw [List.find?_eq_none] at hg
    exact absurd (hg f hf) (by simp)
  | some g =>
    have hname : g.name = f.name := by simpa using List.find?_some hg
    rw [List.inj_on_of_nodup_map h.names (List.mem_of_find?_eq_some hg) hf hname]

/-- A call that is known and resolved goes to the block of a function. -/
theorem resolved_function (h : ModuleCode m p fs functions entry) (ha : p.encode = .ok a)
    {name : String} {sig : Signature} {g : FunctionSig} {i : UInt16} (hg : fs[name]? = some g)
    (hi : p.directory.resolve ⟨name, sig⟩ = .ok i) :
    ∃ f b e, m.function? name = some f ∧ Compiled fs f.name f.params f.result f.body b ∧
      b.signature = sig ∧ a.blocks[i.toNat]? = some e ∧ Encodes p.directory b e := by
  obtain ⟨-, hsize, -, hblocks⟩ := Program.encode_ok ha
  obtain ⟨f, hf, rfl, -⟩ := h.table.entry.mp hg
  obtain ⟨b, hb, hcompiled⟩ := h.block_of_mem hf
  obtain ⟨b', e, hb', hname, hsig, he, hencodes⟩ := Program.resolve_encoded hsize hblocks hi
  have hmem : b ∈ p.blocks := h.mem_blocks.mpr (.inl hb)
  obtain rfl : b' = b := List.inj_on_of_nodup_map h.names (Array.mem_toList_iff.mpr hb')
    (Array.mem_toList_iff.mpr hmem) (hname.trans hcompiled.1.symm)
  exact ⟨f, b', e, function?_of_mem h.table hf, hcompiled, hsig, he, hencodes⟩

/-- A block of an artifact with the code that it was made from. -/
def siteOf (a : Artifact) {d : Directory} {b : Assembly.Block} {e : TypedStack.Block}
    (h : Encodes d b e) : Site :=
  ⟨a.blocks, d, e, b.instrs.toList, h.code⟩

/-- The block that a function was encoded to follows a call, wherever it lies in the artifact. -/
theorem Compiled.follows {name : String} {params : List Param} {result : ResultType}
    {body : List Stmt} {d : Directory} {b : Assembly.Block} {e : TypedStack.Block} {n : Nat}
    {calls : Calls} (h : Compiled fs name params result body b) (he : Encodes d b e)
    (hserves : Serves a.blocks d fs n calls) {args : List Value}
    (hlen : args.length = b.signature.params.length) {c : Console} (hc : c.opened = true)
    (caller : Activation) (waiting : List Activation) :
    Follows a.blocks n ⟨c, .enter e (castAll args b.signature.params), caller :: waiting⟩
      (callBody ⟨calls, n, result⟩ params body args c) (Returned caller waiting result) := by
  obtain ⟨-, scope, inputs, code, labels, hcode⟩ := h
  rw [← he.signature] at hlen ⊢
  exact body_follows (x := siteOf a he) hcode he.slots he.signature rfl hserves hlen hc caller
    waiting

/-- Every function is served by its block, however deep the calls go. With no calls allowed the tree
is cut off at once, and any run keeps up with that. -/
theorem serves (h : ModuleCode m p fs functions entry) (ha : p.encode = .ok a) :
    ∀ n, Serves a.blocks p.directory fs n (m.invoke n)
  | 0 => by
    -- no call is allowed: the evaluation is cut off at once, and no step is owed for it
    intro name g sig i hg _ hi
    obtain ⟨f, b, e, -, -, hsig, he, hencodes⟩ := resolved_function h ha hg hi
    exact ⟨e, he, hencodes.signature.trans hsig, fun _ _ l _ _ _ _ _ =>
      ⟨0, l, Nat.le_refl 0, .refl⟩⟩
  | n + 1 => by
    have ih := serves h ha n
    intro name g sig i hg _ hi
    obtain ⟨f, b, e, hf, hcompiled, hsig, he, hencodes⟩ := resolved_function h ha hg hi
    refine ⟨e, he, hencodes.signature.trans hsig, ?_⟩
    intro args c l caller waiting hlen hc hstep
    subst hsig
    have hresult : b.signature.result = f.result := by
      obtain ⟨-, scope, inputs, code, labels, hcode⟩ := hcompiled
      rw [hcode.signature]
    simp only [Module.invoke, hf]
    -- the step into the block pays for the level of calls
    rw [hresult, Nat.add_comm]
    exact (Compiled.follows hcompiled hencodes ih hlen hc caller waiting).behind (.single hstep)

end

end TypedStack.Simulation
