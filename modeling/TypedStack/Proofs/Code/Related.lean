import TypedStack.Code.Op
import TypedStack.Proofs.Inversion
/-!
# Instructions that correspond

Symbolic, placed and encoded code use one instruction type at different parameters. `Op.Related`
says that two instructions are the same but for what stands for constants, messages, blocks and jump
targets, and relates these. What a traversal gives back is always related to what it was given.

The assembler, the verifier and the machine look at different forms of one program, so most
statements that connect two of them are about related instructions. The relations on the parts are
left open: in one place they say that a pool has the constant at an index, in another that two
targets are the same place.
-/

set_option autoImplicit false

namespace TypedStack

namespace Op

/-- Two instructions are of the same kind, with the same types, slots and relations in them, and
what they refer to is related. -/
inductive Related {K M B T K' M' B' T' : Type} (rk : K → K' → Prop) (rm : M → M' → Prop)
    (rb : B → B' → Prop) (rt : T → T' → Prop) : Op K M B T → Op K' M' B' T' → Prop
  | const {k : K} {k' : K'} (h : rk k k') : Related rk rm rb rt (.const k) (.const k')
  | pop (t : ValueType) : Related rk rm rb rt (.pop t) (.pop t)
  | load (t : ValueType) (slot : UInt16) : Related rk rm rb rt (.load t slot) (.load t slot)
  | store (t : ValueType) (slot : UInt16) : Related rk rm rb rt (.store t slot) (.store t slot)
  | arith (op : ArithOp) (t : ValueType) : Related rk rm rb rt (.arith op t) (.arith op t)
  | cast (source target : ValueType) :
    Related rk rm rb rt (.cast source target) (.cast source target)
  | shift (kind : ShiftKind) : Related rk rm rb rt (.shift kind) (.shift kind)
  | compare (t : ValueType) : Related rk rm rb rt (.compare t) (.compare t)
  | jump {l : T} {l' : T'} (h : rt l l') : Related rk rm rb rt (.jump l) (.jump l')
  | jumpIf (relation : Relation) {l : T} {l' : T'} (h : rt l l') :
    Related rk rm rb rt (.jumpIf relation l) (.jumpIf relation l')
  | jumpIfTrue {l : T} {l' : T'} (h : rt l l') :
    Related rk rm rb rt (.jumpIfTrue l) (.jumpIfTrue l')
  | call {b : B} {b' : B'} (h : rb b b') : Related rk rm rb rt (.call b) (.call b')
  | ret (t : ValueType) : Related rk rm rb rt (.ret t) (.ret t)
  | retVoid : Related rk rm rb rt .retVoid .retVoid
  | openInput : Related rk rm rb rt .openInput .openInput
  | read (t : ValueType) : Related rk rm rb rt (.read t) (.read t)
  | print (t : ValueType) : Related rk rm rb rt (.print t) (.print t)
  | printError {m : M} {m' : M'} (h : rm m m') :
    Related rk rm rb rt (.printError m) (.printError m')
  | exit : Related rk rm rb rt .exit .exit

namespace Related

variable {K M B T K' M' B' T' : Type} {rk : K → K' → Prop} {rm : M → M' → Prop}
  {rb : B → B' → Prop} {rt : T → T' → Prop} {o : Op K M B T} {p : Op K' M' B' T'}

/-- Related instructions have the same opcode, and so the same size. -/
theorem opcode_eq (h : Related rk rm rb rt o p) : o.opcode = p.opcode := by
  cases h with
  | arith op t => cases op <;> rfl
  | shift kind => cases kind <;> rfl
  | _ => rfl

theorem size_eq (h : Related rk rm rb rt o p) : o.size = p.size := by
  unfold Op.size
  rw [h.opcode_eq]

/-- The relations on the parts may be replaced by weaker ones. Only six kinds of instructions have
such parts. -/
theorem mono {rk' : K → K' → Prop} {rm' : M → M' → Prop} {rb' : B → B' → Prop}
    {rt' : T → T' → Prop} (hk : ∀ a b, rk a b → rk' a b) (hm : ∀ a b, rm a b → rm' a b)
    (hb : ∀ a b, rb a b → rb' a b) (ht : ∀ a b, rt a b → rt' a b) (h : Related rk rm rb rt o p) :
    Related rk' rm' rb' rt' o p := by
  cases h with
  | const h => exact .const (hk _ _ h)
  | jump h => exact .jump (ht _ _ h)
  | jumpIf r h => exact .jumpIf r (ht _ _ h)
  | jumpIfTrue h => exact .jumpIfTrue (ht _ _ h)
  | call h => exact .call (hb _ _ h)
  | printError h => exact .printError (hm _ _ h)
  | _ => constructor

/-- Two passes over one instruction, the second of which changes jump targets only. -/
theorem retarget {T'' : Type} {rt' : T → T'' → Prop} {q : Op K' M' B' T''}
    {step : T' → T'' → Prop} (h : Related rk rm rb rt o p) (h' : Related Eq Eq Eq step p q)
    (ht : ∀ a b c, rt a b → step b c → rt' a c) : Related rk rm rb rt' o q := by
  cases h with
  | const h => cases h' with | const e => exact .const (e ▸ h)
  | jump h => cases h' with | jump h₂ => exact .jump (ht _ _ _ h h₂)
  | jumpIf r h => cases h' with | jumpIf _ h₂ => exact .jumpIf r (ht _ _ _ h h₂)
  | jumpIfTrue h => cases h' with | jumpIfTrue h₂ => exact .jumpIfTrue (ht _ _ _ h h₂)
  | call h => cases h' with | call e => exact .call (e ▸ h)
  | printError h => cases h' with | printError e => exact .printError (e ▸ h)
  | _ => cases h'; constructor

end Related

variable {ε σ K M B T K' M' B' T' : Type}

/-- Where a traversal succeeds, each part that it has put into the result comes from the part of the
given instruction in the same place. -/
theorem related_of_traverse {f : K → Except ε K'} {g : M → Except ε M'} {h : B → Except ε B'}
    {t : T → Except ε T'} {o : Op K M B T} {p : Op K' M' B' T'}
    (hp : o.traverse f g h t = .ok p) :
    Related (f · = .ok ·) (g · = .ok ·) (h · = .ok ·) (t · = .ok ·) o p := by
  cases o with
  | const k =>
    obtain ⟨k', hk, rfl⟩ := except_functor_map_ok.mp hp
    exact .const hk
  | jump l =>
    obtain ⟨l', hl, rfl⟩ := except_functor_map_ok.mp hp
    exact .jump hl
  | jumpIf r l =>
    obtain ⟨l', hl, rfl⟩ := except_functor_map_ok.mp hp
    exact .jumpIf r hl
  | jumpIfTrue l =>
    obtain ⟨l', hl, rfl⟩ := except_functor_map_ok.mp hp
    exact .jumpIfTrue hl
  | call b =>
    obtain ⟨b', hb, rfl⟩ := except_functor_map_ok.mp hp
    exact .call hb
  | printError m =>
    obtain ⟨m', hm, rfl⟩ := except_functor_map_ok.mp hp
    exact .printError hm
  | _ => cases hp; constructor

end Op

end TypedStack
