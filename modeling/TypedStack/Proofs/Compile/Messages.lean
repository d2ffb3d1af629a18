import TypedStack.Machine.Run
import TypedStack.Proofs.Artifact.RoundTrip
import TypedStack.Proofs.Compile.Modules
/-!
# Messages and the bytes of a program

The assembler checks every count that it writes but one: the length of a message. So assembled bytes
are read back as the artifact they were written from if and only if the messages of the program fit
(`assembled_bytes_read_back`). The messages of a compiled module are those of its assertions and
aborts, which name a place in the source.

The name of a source is part of a place and is as long as its author likes. A long one is therefore
enough to make a module compile to bytes that are not read back as they were meant, of which
`overlong_source_not_read_back` is an instance.
-/

set_option autoImplicit false

namespace TypedStack

namespace Assembly

/-! ## Messages of code

A message enters the constant pool of its block, where it stands with its length in front. The pool
of a block has the messages of its code and no others. -/

/-- The text that an instruction enters into the constant pool. -/
def Instr.message? : Instr → Option String
  | .op (.printError text) | .op (.const (.message text)) => some text
  | _ => none

/-- The messages of code, in the order in which they stand. One that is used twice is listed
twice. -/
def messagesOf (code : List Instr) : List String := code.filterMap Instr.message?

@[simp] theorem messagesOf_nil : messagesOf [] = [] := rfl

@[simp] theorem messagesOf_cons (i : Instr) (code : List Instr) :
    messagesOf (i :: code) = i.message?.toList ++ messagesOf code := by
  unfold messagesOf
  rw [List.filterMap_cons]
  cases i.message? <;> rfl

@[simp] theorem messagesOf_append (a b : List Instr) :
    messagesOf (a ++ b) = messagesOf a ++ messagesOf b :=
  List.filterMap_append

/-- The texts that a program writes when it fails. -/
def Program.messages (p : Program) : List String :=
  p.blocks.toList.flatMap fun b => messagesOf b.instrs.toList

/-- A message is one of the code if an instruction has it for its constant. -/
theorem mem_messagesOf {text : String} {code : List Instr} :
    text ∈ messagesOf code ↔ ∃ o, .op o ∈ code ∧ constant? o = some (.message text) := by
  unfold messagesOf
  rw [List.mem_filterMap]
  constructor
  · rintro ⟨i, hi, htext⟩
    unfold Instr.message? at htext
    split at htext
    · cases htext
      exact ⟨_, hi, rfl⟩
    · cases htext
      exact ⟨_, hi, rfl⟩
    · cases htext
  · rintro ⟨o, ho, htext⟩
    refine ⟨.op o, ho, ?_⟩
    unfold constant? at htext
    split at htext
    · cases htext
      rfl
    · cases htext
      rfl
    · cases htext

/-- The messages of the pool are those of the code. Each is entered once, so only membership is
compared. -/
theorem EncodesCode.message_mem {d : Directory} {code : List Instr} {s : Segment}
    (h : EncodesCode d code s) {text : String} :
    .message text ∈ s.pool ↔ text ∈ messagesOf code := by
  rw [mem_messagesOf]
  constructor
  · intro hmem
    obtain ⟨o, ho, htext⟩ := h.used _ hmem
    exact ⟨o, mem_opsOf.mp ho, htext⟩
  · rintro ⟨o, ho, htext⟩
    obtain ⟨ops, hops, -⟩ := h.bytes
    obtain ⟨op, -, hplaced⟩ := forall₂_mem_right hops.flip (mem_opsOf.mpr ho)
    cases hplaced with
    | const hk => exact Array.mem_of_getElem? (by rw [hk]; exact htext)
    | printError hk => exact Array.mem_of_getElem? (by rw [hk]; exact htext)
    | _ => cases htext

/-- Of the counts of an encoded block only the lengths of its messages may not fit. All other counts
were checked when the block was encoded. -/
theorem Encodes.fits_iff {d : Directory} {b : Block} {e : TypedStack.Block} (h : Encodes d b e) :
    e.Fits ↔ ∀ text ∈ messagesOf b.instrs.toList, text.utf8ByteSize ≤ wordLimit := by
  constructor
  · rintro ⟨-, -, -, -, hpool, -⟩ text htext
    exact hpool _ (h.code.message_mem.mpr htext)
  · intro hmessages
    -- there are at most as many line marks as bytes of code, and their field is wider than needed
    have hcode : e.segment.code.size ≤ wordLimit := h.code.code_size ▸ h.code.size_le
    have hlines := h.code.lines_le
    refine ⟨h.name ▸ h.name_le, h.signature ▸ h.params_le, h.slots ▸ h.slots_le, h.code.room, ?_,
      by unfold wordLimit at hcode; omega, by unfold wordLimit at hcode; omega⟩
    intro c hc
    cases c with
    | value v => trivial
    | message text => exact hmessages text (h.code.message_mem.mp hc)

/-- The same of an artifact, whose messages are those of all its blocks. -/
theorem Program.encode_artifact_fits {p : Program} {a : Artifact} (h : p.encode = .ok a) :
    a.Fits ↔ ∀ text ∈ p.messages, text.utf8ByteSize ≤ wordLimit := by
  obtain ⟨hname, hsize, hlen, hblocks⟩ := p.encode_ok h
  have hcount : a.blocks.size ≤ wordLimit := by
    rw [← Array.length_toList, ← hblocks.length_eq, Array.length_toList]
    exact hsize
  simp only [Program.messages, List.mem_flatMap, forall_exists_index, and_imp]
  constructor
  · rintro ⟨-, -, hall⟩ text b hb htext
    obtain ⟨e, he, hencodes⟩ := forall₂_mem_right hblocks.flip hb
    exact hencodes.fits_iff.mp (hall e (Array.mem_toList_iff.mp he)) text htext
  · intro hmessages
    refine ⟨hname ▸ hlen, hcount, fun e he => ?_⟩
    obtain ⟨b, hb, hencodes⟩ := forall₂_mem_right hblocks (Array.mem_toList_iff.mpr he)
    exact hencodes.fits_iff.mpr fun text htext => hmessages text b hb htext

/-- An encoded artifact is read back from its bytes if and only if its messages fit. -/
theorem Program.ofBytes_encoded {p : Program} {a : Artifact} (h : p.encode = .ok a) :
    Artifact.ofBytes a.toBytes = .ok a ↔ ∀ text ∈ p.messages, text.utf8ByteSize ≤ wordLimit := by
  rw [Artifact.ofBytes_toBytes, p.encode_artifact_fits h]

/-- Assembled bytes are those of an encoded artifact, which verifies if that was asked for. -/
theorem Program.assemble_ok {p : Program} {verify : Bool} {bytes : List UInt8} :
    p.assemble verify = .ok bytes ↔
      ∃ a, p.encode = .ok a ∧ (verify = true → a.verify = .ok ()) ∧ a.toBytes = bytes := by
  unfold Program.assemble
  rw [except_bind_ok]
  refine exists_congr fun a => and_congr_right fun _ => ?_
  cases verify with
  | false => simp [except_pure_ok]
  | true =>
    simp only [if_true, except_bind_ok, except_mapError_ok, except_pure_ok, true_implies]
    constructor
    · rintro ⟨_, hverify, hbytes⟩
      exact ⟨hverify, hbytes⟩
    · exact fun h => ⟨(), h⟩

end Assembly

/-! ## Messages of trees

An expression has no messages: a division by zero and the like end the run with an error of the
machine, and not with a text of the program. -/

mutual

/-- The texts that the assertions and aborts of a statement write. -/
def Stmt.messages : Stmt → List String
  | .assert loc _ => [s!"Assertion failed at {loc.text}"]
  | .abort loc => [s!"Program aborted at {loc.text}"]
  | .loop _ body _ => Stmt.messagesAll body
  | .branch _ _ arms none => BranchArm.messagesAll arms
  | .branch _ _ arms (some otherwise) =>
    BranchArm.messagesAll arms ++ Stmt.messagesAll otherwise
  | _ => []

def Stmt.messagesAll : List Stmt → List String
  | [] => []
  | first :: rest => first.messages ++ Stmt.messagesAll rest

def BranchArm.messagesAll : List BranchArm → List String
  | [] => []
  | .mk _ body :: rest => Stmt.messagesAll body ++ BranchArm.messagesAll rest

end

/-- The messages of the functions, and behind them those of the body of the program. -/
def Module.messages (m : Module) : List String :=
  m.functions.flatMap (fun f => Stmt.messagesAll f.body) ++
    m.entry.toList.flatMap (fun e => Stmt.messagesAll e.body)

namespace Compile

open Assembly

@[simp] theorem messagesOf_castCode (source target : ValueType) :
    messagesOf (castCode source target) = [] := by
  unfold castCode
  split <;> rfl

@[simp] theorem messagesOf_signalCode (relation : Relation) (n : Nat) :
    messagesOf (signalCode relation n) = [] := rfl

@[simp] theorem messagesOf_dropCode (t : ResultType) : messagesOf (dropCode t) = [] := by
  cases t <;> rfl

@[simp] theorem messagesOf_zeroCode (t : ResultType) : messagesOf (zeroCode t) = [] := by
  cases t <;> rfl

@[simp] theorem messagesOf_fatalCode (message : String) :
    messagesOf (fatalCode message) = [message] := rfl

section

variable {fs : FunctionTable} {vars : Variables} {result : ResultType}

mutual

theorem ExprCode.messages : ∀ {e : Expr} {lo hi : Nat} {code : List Instr} {t : ResultType},
    ExprCode fs vars e lo code t hi → messagesOf code = []
  | _, _, _, _, _, .call _ _ hargs => by simp [hargs.messages, Instr.message?]
  | _, _, _, _, _, .arith hl hr _ _ => by simp [hl.messages, hr.messages, Instr.message?]
  | _, _, _, _, _, .shift hl hr => by simp [hl.messages, hr.messages, Instr.message?]
  | _, _, _, _, _, .comparison hl hr _ => by simp [hl.messages, hr.messages, Instr.message?]
  | _, _, _, _, _, .variable _ => rfl
  | _, _, _, _, _, .int => rfl
  | _, _, _, _, _, .double => rfl

theorem ArgsCode.messages : ∀ {args : List Expr} {types : List ValueType} {lo hi : Nat}
    {code : List Instr}, ArgsCode fs vars args types lo code hi → messagesOf code = []
  | _, _, _, _, _, .nil => rfl
  | _, _, _, _, _, .cons he hrest => by simp [he.messages, hrest.messages]

end

theorem TestsCode.messages {target : Variable} {arms : List BranchArm} {lo hi : Nat}
    {code : List Instr} {labels : List Label}
    (h : TestsCode fs vars target arms lo code labels hi) : messagesOf code = [] := by
  induction h with
  | nil => rfl
  | cons he _ _ ih => simp [he.messages, ih, Instr.message?]

mutual

/-- The code of a statement has the messages of the statement, in their order. -/
theorem StmtCode.messages : ∀ {st : Stmt} {lo hi : Nat} {code : List Instr},
    StmtCode fs vars result st lo code hi → messagesOf code = st.messages
  | _, _, _, _, .read _ => rfl
  | _, _, _, _, .print he => by simp [he.messages, Instr.message?, Stmt.messages]
  | _, _, _, _, .declare he _ => by simp [he.messages, Instr.message?, Stmt.messages]
  | _, _, _, _, .declareZero _ => rfl
  | _, _, _, _, .assign _ he => by simp [he.messages, Instr.message?, Stmt.messages]
  | _, _, _, _, .ret _ he => by simp [he.messages, Instr.message?, Stmt.messages]
  | _, _, _, _, .retEffect _ he => by simp [he.messages, Instr.message?, Stmt.messages]
  | _, _, _, _, .retZero => by simp [Stmt.messages]
  | _, _, _, _, .call he => by simp [he.messages, Stmt.messages]
  | _, _, _, _, .assert he => by simp [he.messages, Instr.message?, Stmt.messages]
  | _, _, _, _, .abort => rfl
  | _, _, _, _, .loop hbody he => by
    simp [hbody.messages, he.messages, Instr.message?, Stmt.messages]
  | _, _, _, _, .branch _ htests hbodies => by
    simp [htests.messages, hbodies.messages, Instr.message?, Stmt.messages]
  | _, _, _, _, .branchElse _ htests hbodies helse => by
    simp [htests.messages, hbodies.messages, helse.messages, Instr.message?, Stmt.messages]

theorem StmtsCode.messages : ∀ {body : List Stmt} {lo hi : Nat} {code : List Instr},
    StmtsCode fs vars result body lo code hi → messagesOf code = Stmt.messagesAll body
  | _, _, _, _, .nil => rfl
  | _, _, _, _, .cons hfirst hrest => by
    simp [hfirst.messages, hrest.messages, Stmt.messagesAll]

theorem BodiesCode.messages : ∀ {done : Label} {arms : List BranchArm} {labels : List Label}
    {lo hi : Nat} {code : List Instr}, BodiesCode fs vars result done arms labels lo code hi →
      messagesOf code = BranchArm.messagesAll arms
  | _, _, _, _, _, _, .nil => rfl
  | _, _, _, _, _, _, .cons hbody hrest => by
    simp [hbody.messages, hrest.messages, Instr.message?, BranchArm.messagesAll]

end

end

theorem Compiled.messages {fs : FunctionTable} {name : String} {params : List Param}
    {result : ResultType} {body : List Stmt} {b : Assembly.Block}
    (h : Compiled fs name params result body b) :
    messagesOf b.instrs.toList = Stmt.messagesAll body := by
  obtain ⟨-, scope, inputs, code, labels, hcode⟩ := h
  rw [hcode.instrs, messagesOf_append, hcode.code.messages, messagesOf_zeroCode, List.append_nil]

theorem EntryCode.messages {fs : FunctionTable} {e : Option Entry} {blocks : List Assembly.Block}
    (h : EntryCode fs e blocks) : blocks.flatMap (fun b => messagesOf b.instrs.toList) =
      e.toList.flatMap fun e => Stmt.messagesAll e.body := by
  cases h with
  | absent => rfl
  | present hmain =>
    have hinit : messagesOf initBlock.instrs.toList = [] := rfl
    have hstart : messagesOf startBlock.instrs.toList = [] := rfl
    simp [hmain.messages, hinit, hstart]

/-- A compiled program has the messages of its module. The blocks of the entry that are always the
same have none. -/
theorem ModuleCode.messages {m : Module} {p : Program} {fs : FunctionTable}
    {functions entry : List Assembly.Block} (h : ModuleCode m p fs functions entry) :
    p.messages = m.messages := by
  have hfunctions : functions.map (fun b => messagesOf b.instrs.toList) =
      m.functions.map fun f => Stmt.messagesAll f.body :=
    map_eq_of_forall₂ (h.functions.imp fun _ _ hb => hb.messages)
  rw [Program.messages, h.blocks, List.flatMap_append, h.entry.messages, List.flatMap_def,
    hfunctions, ← List.flatMap_def]
  rfl

theorem compile_ok {options : Options} {m : Module} {bytes : List UInt8} :
    compile options m = .ok bytes ↔
      ∃ p, lowerModule options m = .ok p ∧ p.assemble options.verify = .ok bytes := by
  unfold compile
  simp only [except_bind_ok, except_mapError_ok]

theorem loadVerified_ok {bytes : List UInt8} {a : Artifact} :
    Artifact.loadVerified bytes = .ok a ↔ Artifact.ofBytes bytes = .ok a ∧ a.verify = .ok () := by
  unfold Artifact.loadVerified
  simp only [except_bind_ok, except_mapError_ok, except_pure_ok]
  constructor
  · rintro ⟨a', ha, _, hverify, rfl⟩
    exact ⟨ha, hverify⟩
  · rintro ⟨ha, hverify⟩
    exact ⟨a, ha, (), hverify, rfl⟩

/-- The artifact of a module verifies, so it is loaded if it is read back. -/
theorem ModuleCode.loadVerified_encoded {m : Module} {p : Program} {fs : FunctionTable}
    {functions entry : List Assembly.Block} (h : ModuleCode m p fs functions entry) {a : Artifact}
    (ha : p.encode = .ok a) :
    Artifact.loadVerified a.toBytes = .ok a ↔
      ∀ text ∈ m.messages, text.utf8ByteSize ≤ wordLimit := by
  have hverify : a.verify = .ok () := p.verify_encode h.typed ha
  rw [loadVerified_ok, and_iff_left hverify, p.ofBytes_encoded ha, h.messages]

/-- Whether or not it was verified, an assembled program is read back as the artifact that it was
encoded to, and a compiled module is loaded as that, if and only if every message fits. The first
part is about any program that assembles, the second about modules, whose messages are known from
the tree. Loading verifies what was read, which never fails for what a module was compiled to. -/
theorem assembled_bytes_read_back (p : Program) (options : Options) (m : Module) (verify : Bool)
    (bytes : List UInt8) :
    (p.assemble verify = .ok bytes →
      ∃ a, p.encode = .ok a ∧
        (Artifact.ofBytes bytes = .ok a ↔ ∀ text ∈ p.messages, text.utf8ByteSize ≤ wordLimit)) ∧
    (compile options m = .ok bytes →
      ∃ q a, lowerModule options m = .ok q ∧ q.encode = .ok a ∧
        (Artifact.loadVerified bytes = .ok a ↔
          ∀ text ∈ m.messages, text.utf8ByteSize ≤ wordLimit)) := by
  constructor
  · intro h
    obtain ⟨a, ha, -, rfl⟩ := Program.assemble_ok.mp h
    exact ⟨a, ha, p.ofBytes_encoded ha⟩
  · intro h
    obtain ⟨q, hq, hassemble⟩ := compile_ok.mp h
    obtain ⟨a, ha, -, rfl⟩ := Program.assemble_ok.mp hassemble
    obtain ⟨fs, functions, entry, hcode⟩ := lowerModule_code hq
    exact ⟨q, a, hq, ha, hcode.loadVerified_encoded ha⟩

/-- Ends at once, with a message that names the source. -/
def abortingModule (source : String) : Module where
  entry := some { body := [.abort { source, line := 1, column := 1 }] }

theorem abortingModule_lowers (source : String) :
    ∃ p, lowerModule {} (abortingModule source) = .ok p ∧ p.Fits := by
  have hname : Text.isIdentifier "Main" = true := by decide +kernel
  simp only [lowerModule, abortingModule, Option.getD_none, hname]
  exact ⟨_, rfl, of_decide_eq_true rfl⟩

/-- The module compiles, however long the name of its source is. -/
theorem abortingModule_compiles (source : String) :
    ∃ p a, lowerModule {} (abortingModule source) = .ok p ∧ p.encode = .ok a ∧
      p.assemble true = .ok a.toBytes ∧ compile {} (abortingModule source) = .ok a.toBytes := by
  obtain ⟨p, hp, hfits⟩ := abortingModule_lowers source
  obtain ⟨fs, functions, entry, hcode⟩ := lowerModule_code hp
  obtain ⟨a, ha⟩ := hcode.typed.encode_of_fits hfits
  have hassemble : p.assemble true = .ok a.toBytes := by
    rw [hcode.typed.assemble_eq, ha]
    rfl
  exact ⟨p, a, hp, ha, hassemble, compile_ok.mpr ⟨p, hp, hassemble⟩⟩

/-- With a short name for the source the message fits, and the bytes are read back. -/
theorem assembled_bytes_read_back_aborting :
    ∃ p a, lowerModule {} (abortingModule "main.mc") = .ok p ∧ p.encode = .ok a ∧
      Artifact.ofBytes a.toBytes = .ok a ∧ Artifact.loadVerified a.toBytes = .ok a ∧
      ∀ text ∈ p.messages, text.utf8ByteSize ≤ wordLimit := by
  obtain ⟨p, a, hp, ha, hassemble, hcompile⟩ := abortingModule_compiles "main.mc"
  have hmessages : ∀ text ∈ (abortingModule "main.mc").messages,
      text.utf8ByteSize ≤ wordLimit := by decide +kernel
  obtain ⟨hassembled, hcompiled⟩ :=
    assembled_bytes_read_back p {} (abortingModule "main.mc") true a.toBytes
  obtain ⟨a₁, ha₁, hread⟩ := hassembled hassemble
  obtain ⟨p₂, a₂, hp₂, ha₂, hload⟩ := hcompiled hcompile
  obtain rfl : a = a₁ := Except.ok.inj (ha.symm.trans ha₁)
  obtain rfl : p = p₂ := Except.ok.inj (hp.symm.trans hp₂)
  obtain rfl : a = a₂ := Except.ok.inj (ha.symm.trans ha₂)
  have hloaded := hload.mpr hmessages
  have hback := (loadVerified_ok.mp hloaded).1
  exact ⟨p, a, hp, ha, hback, hloaded, hread.mp hback⟩

theorem utf8ByteSize_replicate (n : Nat) :
    (String.ofList (List.replicate n 'x')).utf8ByteSize = n := by
  induction n with
  | zero => rfl
  | succ n ih =>
    rw [List.replicate_succ', String.ofList_append, String.utf8ByteSize_append, ih]
    rfl

/-- The message names the source, so it is no shorter than that name. -/
theorem abortingModule_message (source : String) :
    ∃ text ∈ (abortingModule source).messages, source.utf8ByteSize ≤ text.utf8ByteSize := by
  refine ⟨_, List.mem_singleton.mpr rfl, ?_⟩
  simp only [Location.text, toString, String.utf8ByteSize_append]
  omega

/-- Where the name of the source has as many bytes as its field has values, the module is verified
and compiled, but its bytes are not those of its artifact to the reader. -/
theorem overlong_source_not_read_back :
    ∃ p a, lowerModule {} (abortingModule (String.ofList (List.replicate 65536 'x'))) = .ok p ∧
      p.encode = .ok a ∧ p.assemble true = .ok a.toBytes ∧
      compile {} (abortingModule (String.ofList (List.replicate 65536 'x'))) = .ok a.toBytes ∧
      Artifact.ofBytes a.toBytes ≠ .ok a ∧ Artifact.loadVerified a.toBytes ≠ .ok a := by
  obtain ⟨p, a, hp, ha, hassemble, hcompile⟩ :=
    abortingModule_compiles (String.ofList (List.replicate 65536 'x'))
  obtain ⟨fs, functions, entry, hcode⟩ := lowerModule_code hp
  have hlost : Artifact.ofBytes a.toBytes ≠ .ok a := by
    rw [Ne, p.ofBytes_encoded ha, hcode.messages]
    intro hfits
    obtain ⟨text, htext, hlong⟩ := abortingModule_message (String.ofList (List.replicate 65536 'x'))
    have hshort := hfits text htext
    rw [utf8ByteSize_replicate] at hlong
    unfold wordLimit at hshort
    omega
  exact ⟨p, a, hp, ha, hassemble, hcompile, hlost, fun hload => hlost (loadVerified_ok.mp hload).1⟩

end Compile

end TypedStack
