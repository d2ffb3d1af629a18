import TypedStack.Proofs.Inversion
import TypedStack.Verification.Typing
/-!
# The typing rules as a relation

`TypingContext.Rule` says for each instruction which shapes it can be entered with and where control
goes on. `TypingContext.edges_iff` shows that the verifier computes exactly this relation, so that
neither its users nor those who build code for it look into the checks.

A rule is a single line, where the verifier makes several checks in a certain order. The order
decides which fault is reported when there are two, and nothing else; faults are therefore not part
of the rules.
-/

set_option autoImplicit false

namespace TypedStack

namespace TypingContext

/-- An instruction followed by the offset `next`, the shape it is entered with, and its edges.
Shapes are written with the top first. An instruction that leaves the block has no edges, and a
conditional jump has two, with the target before the next instruction, as the verifier takes them.
Nothing is said about the target of a jump: whether an instruction is there is checked when the edge
is taken. -/
inductive Rule (c : TypingContext) (next : Nat) : EncodedOp → Shape → List Edge → Prop
  | const {i : UInt16} {v : Value} {s : Shape}
      (h : c.block.segment.pool[i.toNat]? = some (.value v)) :
      Rule c next (.const i) s [(next, v.type :: s)]
  | pop {t : ValueType} {s : Shape} : Rule c next (.pop t) (t :: s) [(next, s)]
  | load {t : ValueType} {n : UInt16} {s : Shape} (h : c.block.slots[n.toNat]? = some t) :
      Rule c next (.load t n) s [(next, t :: s)]
  | store {t : ValueType} {n : UInt16} {s : Shape} (h : c.block.slots[n.toNat]? = some t) :
      Rule c next (.store t n) (t :: s) [(next, s)]
  | arith {o : ArithOp} {t : ValueType} {s : Shape} (h : t.isNumeric = true) :
      Rule c next (.arith o t) (t :: t :: s) [(next, t :: s)]
  | cast {source target : ValueType} {s : Shape} :
      Rule c next (.cast source target) (source :: s) [(next, target :: s)]
  | shift {kind : ShiftKind} {s : Shape} :
      Rule c next (.shift kind) (.int :: .int :: s) [(next, .int :: s)]
  | compare {t : ValueType} {s : Shape} :
      Rule c next (.compare t) (t :: t :: s) [(next, .int :: s)]
  | jump {target : UInt16} {s : Shape} : Rule c next (.jump target) s [(target.toNat, s)]
  | jumpIf {relation : Relation} {target : UInt16} {s : Shape} :
      Rule c next (.jumpIf relation target) (.int :: s) [(target.toNat, s), (next, s)]
  | jumpIfTrue {target : UInt16} {s : Shape} :
      Rule c next (.jumpIfTrue target) (.bool :: s) [(target.toNat, s), (next, s)]
  | call {i : UInt16} {callee : Block} {s : Shape} (h : c.blocks[i.toNat]? = some callee) :
      Rule c next (.call i) (callee.signature.params.reverse ++ s)
        [(next, callee.signature.result.toList ++ s)]
  | ret {t : ValueType} {s : Shape} (h : c.block.signature.result = some t) :
      Rule c next (.ret t) (t :: s) []
  | retVoid {s : Shape} (h : c.block.signature.result = none) : Rule c next .retVoid s []
  | openInput {s : Shape} : Rule c next .openInput s [(next, s)]
  | read {t : ValueType} {s : Shape} : Rule c next (.read t) s [(next, t :: s)]
  | print {t : ValueType} {s : Shape} : Rule c next (.print t) (t :: s) [(next, s)]
  | printError {i : UInt16} {text : String} {s : Shape}
      (h : c.block.segment.pool[i.toNat]? = some (.message text)) :
      Rule c next (.printError i) s [(next, s)]
  | exit {s : Shape} : Rule c next .exit (.int :: s) []

/-! ## Single checks

Each check that the verifier makes, with the condition under which it succeeds. These are the only
places where the checks are opened. -/

/-- A type is taken off a shape if it is on top of it. -/
theorem pop_ok {t : ValueType} {shape rest : Shape} :
    pop t shape = .ok rest ↔ shape = t :: rest := by
  cases shape with
  | nil => simp [pop]
  | cons found tail =>
    simp only [pop]
    split
    · next h => simp [h]
    · next h => simp [h]

/-- Several types are taken off in the order in which they are listed, so the first listed is on
top. -/
theorem popAll_ok {types : List ValueType} {shape rest : Shape} :
    popAll types shape = .ok rest ↔ shape = types ++ rest := by
  induction types generalizing shape with
  | nil => simp [popAll, eq_comm]
  | cons t types ih =>
    simp only [popAll, except_bind_ok, pop_ok, ih]
    constructor
    · rintro ⟨_, rfl, rfl⟩
      rfl
    · rintro rfl
      exact ⟨_, rfl, rfl⟩

variable {c : TypingContext}

theorem checkSlot_ok {n : UInt16} {t : ValueType} :
    c.checkSlot n t = .ok () ↔ c.block.slots[n.toNat]? = some t := by
  unfold checkSlot
  split
  · next h => simp [h]
  · next declared h =>
    split
    · next heq => simp [h, heq]
    · next hne => simp [h, hne]

theorem constantAt_ok {i : UInt16} {k : Constant} :
    c.constantAt i = .ok k ↔ c.block.segment.pool[i.toNat]? = some k := by
  unfold constantAt
  split
  · next h => simp [h]
  · next h => simp [h]

theorem checkResult_ok {found : ResultType} :
    c.checkResult found = .ok () ↔ c.block.signature.result = found := by
  simp only [checkResult]
  split
  · next h => simp [h]
  · next h => simp [h]

/-! ## Checks and rules

The two directions split their cases differently. From the checks to the rules it is the instruction
that is looked at, as the verifier does; from the rules to the checks it is the rule. -/

/-- What passes the checks of an instruction is an instance of its rule. One case per instruction:
the checks are taken apart, and what each of them has found is what the rule asks for. -/
theorem rule_of_edges {op : EncodedOp} {next : Nat} {shape : Shape} {es : List Edge}
    (h : c.edges op next shape = .ok es) : c.Rule next op shape es := by
  cases op with
  | const i =>
    simp only [edges, except_bind_ok, constantAt_ok] at h
    obtain ⟨k, hk, h⟩ := h
    cases k with
    | value v =>
      obtain rfl := except_pure_ok.mp h
      exact .const hk
    | message text => cases h
  | pop t =>
    simp only [edges, except_bind_ok, pop_ok, except_pure_ok] at h
    obtain ⟨rest, rfl, rfl⟩ := h
    exact .pop
  | load t n =>
    simp only [edges, except_bind_ok, except_pure_ok] at h
    obtain ⟨_, hn, rfl⟩ := h
    exact .load (checkSlot_ok.mp hn)
  | store t n =>
    simp only [edges, except_bind_ok, pop_ok, except_pure_ok] at h
    obtain ⟨_, hn, rest, rfl, rfl⟩ := h
    exact .store (checkSlot_ok.mp hn)
  | arith o t =>
    -- the type is looked at before the operands are
    cases ht : t.isNumeric with
    | false =>
      simp only [edges, ht] at h
      cases h
    | true =>
      simp only [edges, ht, if_true, except_bind_ok, popAll_ok, except_pure_ok] at h
      obtain ⟨rest, rfl, rfl⟩ := h
      exact .arith ht
  | cast source target =>
    simp only [edges, except_bind_ok, pop_ok, except_pure_ok] at h
    obtain ⟨rest, rfl, rfl⟩ := h
    exact .cast
  | shift kind =>
    simp only [edges, except_bind_ok, popAll_ok, except_pure_ok] at h
    obtain ⟨rest, rfl, rfl⟩ := h
    exact .shift
  | compare t =>
    simp only [edges, except_bind_ok, popAll_ok, except_pure_ok] at h
    obtain ⟨rest, rfl, rfl⟩ := h
    exact .compare
  | jump target =>
    obtain rfl := except_pure_ok.mp h
    exact .jump
  | jumpIf relation target =>
    simp only [edges, except_bind_ok, pop_ok, except_pure_ok] at h
    obtain ⟨rest, rfl, rfl⟩ := h
    exact .jumpIf
  | jumpIfTrue target =>
    simp only [edges, except_bind_ok, pop_ok, except_pure_ok] at h
    obtain ⟨rest, rfl, rfl⟩ := h
    exact .jumpIfTrue
  | call i =>
    simp only [edges] at h
    split at h
    · cases h
    · next callee hi =>
      -- the arguments of a call lie on the stack in reverse, the last on top
      simp only [except_bind_ok, popAll_ok, except_pure_ok] at h
      obtain ⟨rest, rfl, rfl⟩ := h
      exact .call hi
  | ret t =>
    simp only [edges, except_bind_ok, except_discard_ok, pop_ok, except_pure_ok] at h
    obtain ⟨_, hr, _, ⟨rest, rfl⟩, rfl⟩ := h
    exact .ret (checkResult_ok.mp hr)
  | retVoid =>
    simp only [edges, except_bind_ok, except_pure_ok] at h
    obtain ⟨_, hr, rfl⟩ := h
    exact .retVoid (checkResult_ok.mp hr)
  | openInput =>
    obtain rfl := except_pure_ok.mp h
    exact .openInput
  | read t =>
    obtain rfl := except_pure_ok.mp h
    exact .read
  | print t =>
    simp only [edges, except_bind_ok, pop_ok, except_pure_ok] at h
    obtain ⟨rest, rfl, rfl⟩ := h
    exact .print
  | printError i =>
    simp only [edges, except_bind_ok, constantAt_ok] at h
    obtain ⟨k, hk, h⟩ := h
    cases k with
    | value v => cases h
    | message text =>
      obtain rfl := except_pure_ok.mp h
      exact .printError hk
  | exit =>
    simp only [edges, except_bind_ok, except_discard_ok, pop_ok, except_pure_ok] at h
    obtain ⟨_, ⟨rest, rfl⟩, rfl⟩ := h
    exact .exit

/-- An instance of a rule passes the checks. The cases are those of the rule, and each check is
discharged by what the rule says about it. -/
theorem Rule.edges_eq {op : EncodedOp} {next : Nat} {shape : Shape} {es : List Edge}
    (h : c.Rule next op shape es) : c.edges op next shape = .ok es := by
  cases h with
  | const hk => exact except_bind_ok.mpr ⟨_, constantAt_ok.mpr hk, rfl⟩
  | pop => exact except_bind_ok.mpr ⟨_, pop_ok.mpr rfl, rfl⟩
  | load hn => exact except_bind_ok.mpr ⟨(), checkSlot_ok.mpr hn, rfl⟩
  | store hn =>
    exact except_bind_ok.mpr ⟨(), checkSlot_ok.mpr hn,
      except_bind_ok.mpr ⟨_, pop_ok.mpr rfl, rfl⟩⟩
  | arith ht =>
    simp only [edges, ht, if_true]
    exact except_bind_ok.mpr ⟨_, popAll_ok.mpr rfl, rfl⟩
  | cast => exact except_bind_ok.mpr ⟨_, pop_ok.mpr rfl, rfl⟩
  | shift => exact except_bind_ok.mpr ⟨_, popAll_ok.mpr rfl, rfl⟩
  | compare => exact except_bind_ok.mpr ⟨_, popAll_ok.mpr rfl, rfl⟩
  | jump => rfl
  | jumpIf => exact except_bind_ok.mpr ⟨_, pop_ok.mpr rfl, rfl⟩
  | jumpIfTrue => exact except_bind_ok.mpr ⟨_, pop_ok.mpr rfl, rfl⟩
  | call hi =>
    simp only [edges, hi]
    exact except_bind_ok.mpr ⟨_, popAll_ok.mpr rfl, rfl⟩
  | ret hr =>
    exact except_bind_ok.mpr ⟨(), checkResult_ok.mpr hr,
      except_bind_ok.mpr ⟨⟨⟩, except_discard_ok.mpr ⟨_, pop_ok.mpr rfl⟩, rfl⟩⟩
  | retVoid hr => exact except_bind_ok.mpr ⟨(), checkResult_ok.mpr hr, rfl⟩
  | openInput => rfl
  | read => rfl
  | print => exact except_bind_ok.mpr ⟨_, pop_ok.mpr rfl, rfl⟩
  | printError hk => exact except_bind_ok.mpr ⟨_, constantAt_ok.mpr hk, rfl⟩
  | exit => exact except_bind_ok.mpr ⟨⟨⟩, except_discard_ok.mpr ⟨_, pop_ok.mpr rfl⟩, rfl⟩

/-- **The verifier computes the rules**, and no other edges. Everything that is proved of the
verifier goes through this equivalence. -/
theorem edges_iff {op : EncodedOp} {next : Nat} {shape : Shape} {es : List Edge} :
    c.edges op next shape = .ok es ↔ c.Rule next op shape es :=
  ⟨rule_of_edges, Rule.edges_eq⟩

/-! ## Rules and the rest of the stack

A rule speaks of the top of a shape. It holds as well of a shape that has more below, which is what
lets code be typed that is a part of other code. -/

/-- What lies below the operands of an instruction plays no part in its rule, and is there
afterwards. -/
theorem Rule.under {op : EncodedOp} {next : Nat} {shape : Shape} {es : List Edge}
    (h : c.Rule next op shape es) (base : Shape) :
    c.Rule next op (shape ++ base) (es.map fun e => (e.1, e.2 ++ base)) := by
  cases h with
  | const hk => exact .const hk
  | load hn => exact .load hn
  | store hn => exact .store hn
  | arith ht => exact .arith ht
  | @call i callee s hi =>
    simp only [List.append_assoc, List.map_cons, List.map_nil]
    exact .call hi
  | ret hr => exact .ret hr
  | retVoid hr => exact .retVoid hr
  | printError hk => exact .printError hk
  | _ => constructor

end TypingContext

end TypedStack
