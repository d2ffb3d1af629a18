import TypedStack.Proofs.Assembly.Encoding
import TypedStack.Proofs.Verification.Fixpoint
import TypedStack.Proofs.Verification.Rules
/-!
# Typed symbolic code verifies

Symbolic code can be typed before it is encoded: every instruction is annotated with the shape it is
entered with, and `Flows` says that the annotations fit together, a jump leading to a mark with the
shape that it brings. `Program.verify_encode` shows that the encoded form of a program typed in this
way passes verification.

The typing is compositional. Pieces of code that flow into each other make a longer piece
(`Flows.append`), so a compiler can be shown to produce typed code construct by construct. The
verifier knows nothing of pieces: it computes shapes from the bytes until nothing changes. It does
not have to be followed here, because any consistent assignment of shapes is enough for it to
succeed, and the annotations are one (`Block.Typed.assignment`).
-/

set_option autoImplicit false

namespace TypedStack.Assembly

/-- An instruction and the shape it is entered with. -/
abbrev Annotated := Shape × Instr

/-- An instruction applies to a shape. The last argument is the shape with which control goes on to
the next instruction, if it does. Where a label is jumped to, `marked` has to allow for the shape
there. -/
inductive OpTyped (slots : Array ValueType) (result : ResultType) (marked : Label → Shape → Prop) :
    SymbolicOp → Shape → Option Shape → Prop
  | const {v : Value} {s : Shape} :
      OpTyped slots result marked (.const (.value v)) s (some (v.type :: s))
  | pop {t : ValueType} {s : Shape} : OpTyped slots result marked (.pop t) (t :: s) (some s)
  | load {t : ValueType} {n : UInt16} {s : Shape} (h : slots[n.toNat]? = some t) :
      OpTyped slots result marked (.load t n) s (some (t :: s))
  | store {t : ValueType} {n : UInt16} {s : Shape} (h : slots[n.toNat]? = some t) :
      OpTyped slots result marked (.store t n) (t :: s) (some s)
  | arith {o : ArithOp} {t : ValueType} {s : Shape} (h : t.isNumeric = true) :
      OpTyped slots result marked (.arith o t) (t :: t :: s) (some (t :: s))
  | cast {source target : ValueType} {s : Shape} :
      OpTyped slots result marked (.cast source target) (source :: s) (some (target :: s))
  | shift {kind : ShiftKind} {s : Shape} :
      OpTyped slots result marked (.shift kind) (.int :: .int :: s) (some (.int :: s))
  | compare {t : ValueType} {s : Shape} :
      OpTyped slots result marked (.compare t) (t :: t :: s) (some (.int :: s))
  | jump {l : Label} {s : Shape} (h : marked l s) : OpTyped slots result marked (.jump l) s none
  | jumpIf {relation : Relation} {l : Label} {s : Shape} (h : marked l s) :
      OpTyped slots result marked (.jumpIf relation l) (.int :: s) (some s)
  | jumpIfTrue {l : Label} {s : Shape} (h : marked l s) :
      OpTyped slots result marked (.jumpIfTrue l) (.bool :: s) (some s)
  | call {callee : Callee} {s : Shape} :
      OpTyped slots result marked (.call callee) (callee.signature.params.reverse ++ s)
        (some (callee.signature.result.toList ++ s))
  | ret {t : ValueType} {s : Shape} (h : result = some t) :
      OpTyped slots result marked (.ret t) (t :: s) none
  | retVoid {s : Shape} (h : result = none) : OpTyped slots result marked .retVoid s none
  | openInput {s : Shape} : OpTyped slots result marked .openInput s (some s)
  | read {t : ValueType} {s : Shape} : OpTyped slots result marked (.read t) s (some (t :: s))
  | print {t : ValueType} {s : Shape} : OpTyped slots result marked (.print t) (t :: s) (some s)
  | printError {text : String} {s : Shape} :
      OpTyped slots result marked (.printError text) s (some s)
  | exit {s : Shape} : OpTyped slots result marked .exit (.int :: s) none

theorem OpTyped.mono {slots : Array ValueType} {result : ResultType}
    {marked marked' : Label → Shape → Prop} {o : SymbolicOp} {s : Shape} {out : Option Shape}
    (h : OpTyped slots result marked o s out) (hm : ∀ l s, marked l s → marked' l s) :
    OpTyped slots result marked' o s out := by
  cases h with
  | load hn => exact .load hn
  | store hn => exact .store hn
  | arith ht => exact .arith ht
  | jump hl => exact .jump (hm _ _ hl)
  | jumpIf hl => exact .jumpIf (hm _ _ hl)
  | jumpIfTrue hl => exact .jumpIfTrue (hm _ _ hl)
  | ret hr => exact .ret hr
  | retVoid hr => exact .retVoid hr
  | _ => constructor

/-- Annotations that fit together, from the shape at the beginning of some code to that at its end.
Behind an instruction that never goes on, any shape may follow. Jumps go to marks among `all`. -/
inductive Flows (slots : Array ValueType) (result : ResultType) (all : List Annotated) :
    Shape → List Annotated → Shape → Prop
  | nil {s : Shape} : Flows slots result all s [] s
  | mark {l : Label} {s t : Shape} {rest : List Annotated} (h : Flows slots result all s rest t) :
      Flows slots result all s ((s, .mark l) :: rest) t
  | next {o : SymbolicOp} {s u t : Shape} {rest : List Annotated}
      (ho : OpTyped slots result (fun l s => (s, .mark l) ∈ all) o s (some u))
      (h : Flows slots result all u rest t) : Flows slots result all s ((s, .op o) :: rest) t
  | stop {o : SymbolicOp} {s u t : Shape} {rest : List Annotated}
      (ho : OpTyped slots result (fun l s => (s, .mark l) ∈ all) o s none)
      (h : Flows slots result all u rest t) : Flows slots result all s ((s, .op o) :: rest) t

namespace Flows

variable {slots : Array ValueType} {result : ResultType} {all : List Annotated}

/-- Code that flows to a shape, and code that flows on from it. -/
theorem append {s t u : Shape} {a b : List Annotated} (ha : Flows slots result all s a t)
    (hb : Flows slots result all t b u) : Flows slots result all s (a ++ b) u := by
  induction ha with
  | nil => exact hb
  | mark _ ih => exact .mark (ih hb)
  | next ho _ ih => exact .next ho (ih hb)
  | stop ho _ ih => exact .stop ho (ih hb)

/-- Inside annotated code the annotation is the shape at that place, whatever comes before. By
recursion on what comes before; behind an instruction that never goes on the shape is taken from the
annotation. -/
theorem suffix {x : Annotated} {post : List Annotated} {t : Shape} :
    ∀ (pre : List Annotated) {s : Shape}, Flows slots result all s (pre ++ x :: post) t →
      Flows slots result all x.1 (x :: post) t
  | [], _, h => by
    cases h with
    | mark h => exact .mark h
    | next ho h => exact .next ho h
    | stop ho h => exact .stop ho h
  | _ :: pre, _, h => by
    cases h with
    | mark h => exact suffix pre h
    | next _ h => exact suffix pre h
    | stop _ h => exact suffix pre h

/-- The first instruction is typed, and the rest flows from what it leaves, if it goes on. -/
theorem op_typed {o : SymbolicOp} {s t : Shape} {rest : List Annotated}
    (h : Flows slots result all s ((s, .op o) :: rest) t) :
    ∃ out, OpTyped slots result (fun l s => (s, .mark l) ∈ all) o s out ∧
      ∀ u, out = some u → Flows slots result all u rest t := by
  cases h with
  | next ho hrest => exact ⟨_, ho, fun u hu => Option.some.inj hu ▸ hrest⟩
  | stop ho _ => exact ⟨_, ho, fun u hu => by cases hu⟩

/-- The first instruction of some code, behind marks that take no room, has its shape. -/
theorem first {s t : Shape} {code : List Annotated} (h : Flows slots result all s code t)
    (hop : ∃ u o, (u, Instr.op o) ∈ code) :
    ∃ marks o rest, code = marks ++ (s, .op o) :: rest ∧ codeSize (marks.map Prod.snd) = 0 := by
  induction h with
  | nil =>
    obtain ⟨u, o, hmem⟩ := hop
    cases hmem
  | @mark l s t rest _ ih =>
    obtain ⟨u, o, hmem⟩ := hop
    obtain ⟨marks, o', rest', rfl, hsize⟩ := ih ⟨u, o, by simpa using hmem⟩
    exact ⟨(s, .mark l) :: marks, o', rest', rfl, by simpa using hsize⟩
  | next => exact ⟨[], _, _, rfl, rfl⟩
  | stop => exact ⟨[], _, _, rfl, rfl⟩

end Flows

/-- Annotations under which a block is typed. It begins with an empty stack, it does not run off its
end, no label is marked twice, and its first slots are those of its parameters. -/
structure Block.Typed (b : Block) (ann : List Annotated) : Prop where
  instrs : ann.map Prod.snd = b.instrs.toList
  flows : ∃ t, Flows b.slots b.signature.result ann [] ann t
  final : ∃ init s o, ann = init ++ [(s, .op o)] ∧ o.isTerminal = true
  distinct : (marksOf b.instrs.toList).Nodup
  params : b.signature.params <+: b.slots.toList

theorem Block.Typed.flows_at {b : Block} {ann : List Annotated} (h : b.Typed ann)
    {pre post : List Annotated} {x : Annotated} (hann : ann = pre ++ x :: post) :
    ∃ t, Flows b.slots b.signature.result ann x.1 (x :: post) t := by
  obtain ⟨t, hflows⟩ := h.flows
  rw [hann] at hflows ⊢
  exact ⟨t, Flows.suffix pre hflows⟩

/-- An instruction at an offset has an annotation. -/
def AssignedAt (ann : List Annotated) (offset : Nat) (s : Shape) : Prop :=
  ∃ pre o post, ann = pre ++ (s, .op o) :: post ∧ codeSize (pre.map Prod.snd) = offset

/-- An instruction takes room, so there is one at most at each offset. -/
theorem AssignedAt.unique {ann : List Annotated} {offset : Nat} {s t : Shape}
    (hs : AssignedAt ann offset s) (ht : AssignedAt ann offset t) : s = t := by
  obtain ⟨pre, o, post, hann, hsize⟩ := hs
  obtain ⟨pre', o', post', hann', hsize'⟩ := ht
  rw [hann] at hann'
  -- if one of the two stood before the other, its bytes would be among those before the other
  rcases List.append_eq_append_iff.mp hann' with ⟨mid, hpre, hmid⟩ | ⟨mid, hpre, hmid⟩
  · cases mid with
    | nil =>
      cases hmid
      rfl
    | cons x mid =>
      cases hmid
      have := o.opcode.size_pos
      simp only [hpre, List.map_append, List.map_cons, codeSize_append, codeSize_cons, size_op,
        Op.size] at hsize'
      omega
  · cases mid with
    | nil =>
      cases hmid
      rfl
    | cons x mid =>
      cases hmid
      have := o'.opcode.size_pos
      simp only [hpre, List.map_append, List.map_cons, codeSize_append, codeSize_cons, size_op,
        Op.size] at hsize
      omega

/-! ## The table of encoded code

The verifier first decodes the code from end to end and keeps a table of instructions. Encoded code
has an instruction in the table exactly where the symbolic code has one. -/

namespace EncodesCode

variable {d : Directory} {code : List Instr} {s : Segment}

/-- The sweep over the bytes stops only between instructions. -/
theorem boundary (h : EncodesCode d code s) {a b : Nat} (hsweep : Sweep s.code a b) :
    ∀ {before after : List Instr}, code = before ++ after → codeSize before = a →
      ∃ before' after', code = before' ++ after' ∧ codeSize before' = b := by
  induction hsweep with
  | refl a => exact fun hcode hsize => ⟨_, _, hcode, hsize⟩
  | @step a next b op hd _ ih =>
    intro before after
    -- marks do not move the sweep
    induction after generalizing before with
    | nil =>
      -- there is nothing to decode at the end
      intro hcode hsize
      have hbounds := Segment.decodeAt_bounds hd
      have hsize' := h.code_size
      rw [hcode, List.append_nil] at hsize'
      omega
    | cons i after ih' =>
      intro hcode hsize
      cases i with
      | mark l =>
        have hcode' : code = (before ++ [.mark l]) ++ after := by simp [hcode]
        exact ih' hcode' (by simpa using hsize)
      | op o =>
        obtain ⟨op', hd', _⟩ := h.decode hcode
        have hnext : (op, next) = (op', codeSize before + o.size) := by
          rw [hsize] at hd' ⊢
          exact Except.ok.inj (hd.symm.trans hd')
        cases hnext
        have hcode' : code = (before ++ [.op o]) ++ after := by simp [hcode]
        exact ih hcode' (by simp)

/-- The sweep goes over a piece of code from its beginning to its end. -/
theorem sweep_from (h : EncodesCode d code s) :
    ∀ {before middle after : List Instr}, code = before ++ (middle ++ after) →
      Sweep s.code (codeSize before) (codeSize before + codeSize middle)
  | before, [], _, _ => .refl _
  | before, .mark l :: middle, after, hcode => by
    have hcode' : code = (before ++ [.mark l]) ++ (middle ++ after) := by simp [hcode]
    simpa using h.sweep_from hcode'
  | before, .op o :: middle, after, hcode => by
    obtain ⟨op, hd, _⟩ := h.decode hcode
    have hcode' : code = (before ++ [.op o]) ++ (middle ++ after) := by simp [hcode]
    refine .step hd ?_
    simpa [Nat.add_assoc] using h.sweep_from hcode'

theorem sweep (h : EncodesCode d code s) {before after : List Instr}
    (hcode : code = before ++ after) : Sweep s.code 0 (codeSize before) := by
  have hcode' : code = [] ++ (before ++ after) := hcode
  simpa using h.sweep_from hcode'

/-- Encoded code can be decoded from end to end. The sweep could only stop where something cannot be
decoded, and where it stops an instruction begins or the code ends. -/
theorem table (h : EncodesCode d code s) : ∃ table, OpTable.ofCode s.code = .ok table := by
  refine OpTable.fill_ok fun o hsweep ho => ?_
  -- the sweep stands before an instruction, perhaps with marks in between
  obtain ⟨before, after, hcode, hsize⟩ := h.boundary hsweep (List.nil_append code).symm rfl
  induction after generalizing before with
  | nil =>
    rw [h.code_size, hcode, List.append_nil, hsize] at ho
    omega
  | cons i after ih =>
    cases i with
    | mark l => exact ih (before ++ [.mark l]) (by simp [hcode]) (by simpa using hsize)
    | op o =>
      obtain ⟨op, hd, _⟩ := h.decode hcode
      exact ⟨op, _, hsize ▸ hd⟩

theorem table_at (h : EncodesCode d code s) {table : OpTable}
    (htable : OpTable.ofCode s.code = .ok table) {before after : List Instr} {o : SymbolicOp}
    (hcode : code = before ++ .op o :: after) :
    ∃ op : EncodedOp, table.at? (codeSize before) = some (op, codeSize before + o.size) ∧
      Placed d s.pool (fun l t => MarkedAt code l t.toNat) o op := by
  obtain ⟨op, hd, hplaced⟩ := h.decode hcode
  exact ⟨op, (OpTable.at?_iff htable).mpr ⟨h.sweep hcode, hd⟩, hplaced⟩

end EncodesCode

/-! ## Verification

The rules of the verifier are applied to the encoded form of each typed instruction. They lead where
the typing says: to the next instruction or to the place of a mark. -/

/-- Where marks are distinct a label has one offset. -/
theorem MarkedAt.unique {code : List Instr} (hd : (marksOf code).Nodup) {l : Label} {m n : Nat}
    (hm : MarkedAt code l m) (hn : MarkedAt code l n) : m = n := by
  obtain ⟨before, after, hcode, rfl⟩ := hm
  obtain ⟨before', after', hcode', rfl⟩ := hn
  have htwice : ∀ {a m b : List Instr}, code ≠ a ++ .mark l :: m ++ .mark l :: b := by
    rintro a m b rfl
    simp [List.nodup_append] at hd
  rw [hcode] at hcode'
  rcases List.append_eq_append_iff.mp hcode' with ⟨mid, hpre, hmid⟩ | ⟨mid, hpre, hmid⟩
  · cases mid with
    | nil => simp [hpre]
    | cons x mid =>
      cases hmid
      exact absurd (by simpa using hcode) htwice
  · cases mid with
    | nil => simp [hpre]
    | cons x mid =>
      cases hmid
      exact absurd (by simpa [hpre] using hcode) htwice

/-- Some code goes on behind every mark and every instruction that can go on. -/
theorem Block.Typed.goes_on {b : Block} {ann : List Annotated} (h : b.Typed ann)
    {pre post : List Annotated} {x : Annotated} (hann : ann = pre ++ x :: post)
    (hx : ∀ s o, x = (s, .op o) → o.isTerminal = false) : ∃ u o, (u, Instr.op o) ∈ post := by
  obtain ⟨init, s, o, hinit, hterminal⟩ := h.final
  rw [hinit] at hann
  rcases List.eq_nil_or_concat post with rfl | ⟨post', y, rfl⟩
  · -- the last instruction would have to go on, but it is terminal
    obtain ⟨_, hlast⟩ := List.append_inj' hann rfl
    cases hlast
    rw [hx s o rfl] at hterminal
    cases hterminal
  · have hann' : init ++ [(s, .op o)] = (pre ++ x :: post') ++ [y] := by
      simpa using hann
    obtain ⟨_, hlast⟩ := List.append_inj' hann' rfl
    cases hlast
    exact ⟨s, o, by simp⟩

/-- The block that a resolved call goes to, in encoded form. -/
theorem Program.resolve_encoded {p : Program} (hsize : p.blocks.size ≤ wordLimit)
    {blocks : Array TypedStack.Block}
    (hblocks : List.Forall₂ (Encodes p.directory) p.blocks.toList blocks.toList) {callee : Callee}
    {i : UInt16} (h : p.directory.resolve callee = .ok i) :
    ∃ b e, b ∈ p.blocks ∧ b.name = callee.name ∧ b.signature = callee.signature ∧
      blocks[i.toNat]? = some e ∧ Encodes p.directory b e := by
  obtain ⟨b, hb, hname, hsig⟩ := Program.resolve_block hsize h
  rw [← Array.getElem?_toList] at hb
  obtain ⟨e, he, hencodes⟩ := forall₂_getElem? hblocks hb
  rw [Array.getElem?_toList] at he
  exact ⟨b, e, Array.mem_toList_iff.mp (List.mem_of_getElem? hb), hname, hsig, he, hencodes⟩

/-- A typed instruction, in a form in which a block refers to the same things, obeys the typing
rule. Its edges go on to the next instruction or to where a label stands. One case per instruction,
and only jumps have an edge that does not go on. -/
theorem OpTyped.rule_of_related {blocks : Array TypedStack.Block} {e : TypedStack.Block}
    {marked : Label → Shape → Prop} {markedAt : Label → Nat → Prop} {o : SymbolicOp}
    {op : EncodedOp} {s : Shape} {out : Option Shape}
    (h : OpTyped e.slots e.signature.result marked o s out)
    (hop : Op.Related (fun k i => e.segment.pool[i.toNat]? = some k)
      (fun text i => e.segment.pool[i.toNat]? = some (.message text))
      (fun callee i => ∃ e', blocks[i.toNat]? = some e' ∧ e'.signature = callee.signature)
      (fun l t => markedAt l t.toNat) o op) (next : Nat) :
    ∃ edges, TypingContext.Rule ⟨blocks, e⟩ next op s edges ∧
      ∀ edge ∈ edges, edge.1 = next ∧ out = some edge.2 ∨
        ∃ l, markedAt l edge.1 ∧ marked l edge.2 := by
  have hnext : ∀ {u : Shape}, out = some u → ∀ edge ∈ [(next, u)],
      edge.1 = next ∧ out = some edge.2 ∨ ∃ l, markedAt l edge.1 ∧ marked l edge.2 := by
    intro u hu edge hedge
    obtain rfl := List.mem_singleton.mp hedge
    exact .inl ⟨rfl, hu⟩
  cases h with
  | const =>
    cases hop with
    | const hk => exact ⟨_, .const hk, hnext rfl⟩
  | pop =>
    cases hop
    exact ⟨_, .pop, hnext rfl⟩
  | load hn =>
    cases hop
    exact ⟨_, .load hn, hnext rfl⟩
  | store hn =>
    cases hop
    exact ⟨_, .store hn, hnext rfl⟩
  | arith ht =>
    cases hop
    exact ⟨_, .arith ht, hnext rfl⟩
  | cast =>
    cases hop
    exact ⟨_, .cast, hnext rfl⟩
  | shift =>
    cases hop
    exact ⟨_, .shift, hnext rfl⟩
  | compare =>
    cases hop
    exact ⟨_, .compare, hnext rfl⟩
  | @jump l _ hl =>
    cases hop with
    | jump hat =>
      refine ⟨_, .jump, fun edge hedge => ?_⟩
      obtain rfl := List.mem_singleton.mp hedge
      exact .inr ⟨l, hat, hl⟩
  | @jumpIf _ l _ hl =>
    cases hop with
    | jumpIf _ hat =>
      refine ⟨_, .jumpIf, fun edge hedge => ?_⟩
      rcases List.mem_cons.mp hedge with rfl | hedge
      · exact .inr ⟨l, hat, hl⟩
      · exact hnext rfl edge hedge
  | @jumpIfTrue l _ hl =>
    cases hop with
    | jumpIfTrue hat =>
      refine ⟨_, .jumpIfTrue, fun edge hedge => ?_⟩
      rcases List.mem_cons.mp hedge with rfl | hedge
      · exact .inr ⟨l, hat, hl⟩
      · exact hnext rfl edge hedge
  | call =>
    cases hop with
    | call hi =>
      obtain ⟨callee, hcallee, hsig⟩ := hi
      rw [← hsig]
      rw [← hsig] at hnext
      exact ⟨_, .call hcallee, hnext rfl⟩
  | ret hr =>
    cases hop
    exact ⟨_, .ret hr, by simp⟩
  | retVoid hr =>
    cases hop
    exact ⟨_, .retVoid hr, by simp⟩
  | openInput =>
    cases hop
    exact ⟨_, .openInput, hnext rfl⟩
  | read =>
    cases hop
    exact ⟨_, .read, hnext rfl⟩
  | print =>
    cases hop
    exact ⟨_, .print, hnext rfl⟩
  | printError =>
    cases hop with
    | printError hk => exact ⟨_, .printError hk, hnext rfl⟩
  | exit =>
    cases hop
    exact ⟨_, .exit, by simp⟩

/-- The encoded form of a typed instruction obeys its typing rule. Its edges go on to the next
instruction or to the offset of a mark. -/
theorem OpTyped.rule {p : Program} (hsize : p.blocks.size ≤ wordLimit)
    {blocks : Array TypedStack.Block}
    (hblocks : List.Forall₂ (Encodes p.directory) p.blocks.toList blocks.toList)
    {marked : Label → Shape → Prop} {markedAt : Label → Nat → Prop} {e : TypedStack.Block}
    {o : SymbolicOp} {op : EncodedOp} {s : Shape} {out : Option Shape}
    (h : OpTyped e.slots e.signature.result marked o s out)
    (hop : Placed p.directory e.segment.pool (fun l t => markedAt l t.toNat) o op) (next : Nat) :
    ∃ edges, TypingContext.Rule ⟨blocks, e⟩ next op s edges ∧
      ∀ edge ∈ edges, edge.1 = next ∧ out = some edge.2 ∨
        ∃ l, markedAt l edge.1 ∧ marked l edge.2 := by
  refine h.rule_of_related (hop.mono (fun _ _ hk => hk) (fun _ _ hk => hk) ?_ fun _ _ ht => ht) next
  intro callee i hi
  obtain ⟨b', e', -, -, hsame, he', hencodes⟩ := Program.resolve_encoded hsize hblocks hi
  exact ⟨e', he', hencodes.signature.trans hsame⟩

namespace Block.Typed

variable {b : Block} {ann : List Annotated}

/-- The instruction behind a place is annotated with the shape there. -/
theorem assigned_behind (h : b.Typed ann) {pre post : List Annotated} {x : Annotated} {u t : Shape}
    (hann : ann = pre ++ x :: post) (hx : ∀ s o, x = (s, .op o) → o.isTerminal = false)
    (hflows : Flows b.slots b.signature.result ann u post t) :
    AssignedAt ann (codeSize (pre.map Prod.snd) + x.2.size) u := by
  obtain ⟨marks, o, rest, rfl, hsize⟩ := hflows.first (h.goes_on hann hx)
  exact ⟨pre ++ x :: marks, o, rest, by simp [hann], by simp [hsize]⟩

/-- A label that stands at an offset leads to an instruction annotated with the shape of its
mark. -/
theorem assigned_mark (h : b.Typed ann) {l : Label} {n : Nat} {s : Shape}
    (hl : MarkedAt b.instrs.toList l n) (hs : (s, .mark l) ∈ ann) : AssignedAt ann n s := by
  obtain ⟨pre, post, hann⟩ := List.append_of_mem hs
  obtain ⟨t, hhere⟩ := h.flows_at hann
  have hat : MarkedAt b.instrs.toList l (codeSize (pre.map Prod.snd)) :=
    ⟨pre.map Prod.snd, post.map Prod.snd, by simp [← h.instrs, hann], rfl⟩
  cases hhere with
  | mark hpost =>
    have hassigned := h.assigned_behind hann (by simp) hpost
    rw [hl.unique h.distinct hat]
    simpa using hassigned

end Block.Typed

theorem OpTyped.not_terminal {slots : Array ValueType} {result : ResultType}
    {marked : Label → Shape → Prop} {o : SymbolicOp} {s u : Shape}
    (h : OpTyped slots result marked o s (some u)) : o.isTerminal = false := by
  cases h <;> rfl

/-- **Annotations are an assignment.** The shapes that a typed block is annotated with fit the rules
of the verifier for its encoded form, at every offset where an instruction stands. -/
theorem Block.Typed.assignment {p : Program} (hsize : p.blocks.size ≤ wordLimit)
    {blocks : Array TypedStack.Block}
    (hblocks : List.Forall₂ (Encodes p.directory) p.blocks.toList blocks.toList) {b : Block}
    {ann : List Annotated} (h : b.Typed ann) {e : TypedStack.Block} (he : Encodes p.directory b e)
    {table : OpTable} (htable : OpTable.ofCode e.segment.code = .ok table) :
    TypingContext.Assignment ⟨blocks, e⟩ table (AssignedAt ann) := by
  refine ⟨?_, AssignedAt.unique, ?_⟩
  · -- the first instruction is at offset zero, behind marks only
    obtain ⟨t, hflows⟩ := h.flows
    obtain ⟨init, s, o, hinit, _⟩ := h.final
    obtain ⟨marks, o', rest, hann, hsize⟩ := hflows.first ⟨s, o, by simp [hinit]⟩
    exact ⟨marks, o', rest, hann, hsize⟩
  · rintro _ s ⟨pre, o, post, hann, rfl⟩
    have hcode : b.instrs.toList = pre.map Prod.snd ++ .op o :: post.map Prod.snd := by
      simp [← h.instrs, hann]
    obtain ⟨op, hat, hop⟩ := he.code.table_at htable hcode
    obtain ⟨t, hhere⟩ := h.flows_at hann
    obtain ⟨out, htyped, hpost⟩ := hhere.op_typed
    rw [← he.slots, ← he.signature] at htyped
    obtain ⟨edges, hrule, hedges⟩ :=
      htyped.rule hsize hblocks hop (codeSize (pre.map Prod.snd) + o.size)
    refine ⟨op, _, edges, hat, hrule.edges_eq, fun edge hedge => ?_⟩
    -- an edge goes on to the next instruction, or to a mark
    rcases hedges edge hedge with ⟨hnext, hu⟩ | ⟨l, hl, hs⟩
    · rw [hu] at htyped
      rw [hnext]
      refine h.assigned_behind hann ?_ (hpost _ hu)
      rintro _ _ hx
      cases hx
      exact htyped.not_terminal
    · exact h.assigned_mark hl hs

/-! ## Programs

What is asked of a program beyond its blocks, and the result. -/

/-- Every block is typed, names are distinct, reserved blocks have their signatures, and every call
is of a block of the program with the signature that the call expects. -/
structure Program.Typed (p : Program) : Prop where
  names : (p.blocks.toList.map (·.name)).Nodup
  reserved : ∀ b ∈ p.blocks, ∀ sig, requiredSignature? b.name = some sig → b.signature = sig
  blocks : ∀ b ∈ p.blocks, ∃ ann, b.Typed ann
  callees : ∀ b ∈ p.blocks, ∀ callee, .op (.call callee) ∈ b.instrs.toList →
    ∃ b' ∈ p.blocks, b'.name = callee.name ∧ b'.signature = callee.signature

/-- A block with a reserved name has to have the signature that is required of it. -/
theorem checkReserved_ok {b : TypedStack.Block} :
    checkReserved b = .ok () ↔ ∀ sig, requiredSignature? b.name = some sig → b.signature = sig := by
  unfold checkReserved
  cases requiredSignature? b.name with
  | none => simp
  | some expected =>
    simp only [Option.some.injEq, forall_eq']
    split
    · next h => simp [h]
    · next h => simp [h]

/-- **Typed programs verify.** A typed program passes verification, once it is encoded: each block
has an assignment, and that is enough for the verifier. -/
theorem Program.verify_encode {p : Program} (h : p.Typed) {a : Artifact} (ha : p.encode = .ok a) :
    a.verify = .ok () := by
  obtain ⟨_, hsize, _, hblocks⟩ := Program.encode_ok ha
  refine Artifact.verify_ok.mpr ⟨?_, fun e he => ?_⟩
  · have hnames : a.blocks.toList.map TypedStack.Block.name = p.blocks.toList.map (·.name) :=
      map_eq_of_forall₂ (hblocks.imp fun _ _ hb => hb.name)
    exact hnames ▸ h.names
  · obtain ⟨b, hb, hencodes⟩ := forall₂_mem_right hblocks (Array.mem_toList_iff.mpr he)
    rw [Array.mem_toList_iff] at hb
    obtain ⟨ann, hann⟩ := h.blocks b hb
    obtain ⟨table, htable⟩ := hencodes.code.table
    refine Artifact.verifyBlock_ok.mpr ⟨?_, ?_⟩
    · rw [checkReserved_ok, hencodes.name, hencodes.signature]
      exact h.reserved b hb
    · refine TypingContext.shapes_ok ?_ htable (hann.assignment hsize hblocks hencodes htable)
      show e.signature.params <+: e.slots.toList
      rw [hencodes.signature, hencodes.slots]
      exact hann.params

end TypedStack.Assembly
