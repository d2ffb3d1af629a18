import TypedStack.Proofs.Assembly.Typed
import TypedStack.Proofs.Compile.Generated
import TypedStack.Proofs.Machine.Runs
import TypedStack.Proofs.Machine.Values
/-!
# Keeping up with an evaluation

`Follows` ties a run of the machine to an evaluation on the tree. Where the evaluation has a value,
the run comes to a state that goes with it; where the program ends, so does the run, in the same
way; and where the evaluation is cut off, the run goes on for at least as many steps as calls or
rounds were allowed. An evaluation that is stuck is followed by no run.

The code of a block is read through its `Site`: `Site.Spans` says that symbolic instructions stand
between two offsets, so that pieces of code can be followed one after the other without counting
bytes.
-/

set_option autoImplicit false

namespace TypedStack

namespace Evaluation

/-! ## Sequences of evaluations

The result of an evaluation is a value to go on with, or one of three ways to stop. -/

theorem Result.andThen_assoc {α β γ : Type} (r : Result α) (f : α → Console → Result β)
    (g : β → Console → Result γ) :
    (r.andThen f).andThen g = r.andThen fun a c => (f a c).andThen g := by
  cases r <;> rfl

end Evaluation

namespace Simulation

open Assembly Compile Evaluation

section

variable {α β : Type} {blocks : Array TypedStack.Block} {n : Nat} {l l' : Layered}
  {post : α → Console → Layered → Prop}

/-- A run of the machine keeps up with an evaluation. The number `n` is how many calls inside each
other, or rounds of a loop, the evaluation was allowed: where it is cut off, the run takes no fewer
steps. -/
def Follows (blocks : Array TypedStack.Block) (n : Nat) (l : Layered) (r : Result α)
    (post : α → Console → Layered → Prop) : Prop :=
  match r with
  | .value a c => ∃ k l', Layered.Reaches blocks l k l' ∧ post a c l'
  | .ended r c => ∃ k l', Layered.Reaches blocks l k l' ∧ Layered.Stops blocks l' (r.map .exited) c
  | .unfinished => ∃ k l', n ≤ k ∧ Layered.Reaches blocks l k l'
  | .stuck => False

namespace Follows

theorem value {a : α} {c : Console} (h : post a c l) : Follows blocks n l (.value a c) post :=
  ⟨0, l, .refl, h⟩

theorem ended {r : Except RuntimeError Int32} {c : Console}
    (h : Layered.Stops blocks l (r.map .exited) c) :
    Follows blocks n l (.ended r c) post :=
  ⟨0, l, .refl, h⟩

/-- A run that keeps up with more calls keeps up with fewer. -/
theorem mono {r : Result α} {n' : Nat} (h : Follows blocks n l r post) (hn : n' ≤ n) :
    Follows blocks n' l r post := by
  cases r with
  | value | ended | stuck => exact h
  | unfinished =>
    obtain ⟨k, l', hk, hl⟩ := h
    exact ⟨k, l', Nat.le_trans hn hk, hl⟩

/-- Steps that the evaluation does not see come first. They count if it is cut off. -/
theorem behind {r : Result α} {k : Nat} (hk : Layered.Reaches blocks l k l')
    (h : Follows blocks n l' r post) : Follows blocks (k + n) l r post := by
  cases r with
  | value a c =>
    obtain ⟨k', l'', hl, hpost⟩ := h
    exact ⟨k + k', l'', hk.trans hl, hpost⟩
  | ended r c =>
    obtain ⟨k', l'', hl, hstops⟩ := h
    exact ⟨k + k', l'', hk.trans hl, hstops⟩
  | unfinished =>
    obtain ⟨k', l'', hk', hl⟩ := h
    exact ⟨k + k', l'', Nat.add_le_add_left hk' k, hk.trans hl⟩
  | stuck => exact h

theorem after {r : Result α} {k : Nat} (hk : Layered.Reaches blocks l k l')
    (h : Follows blocks n l' r post) : Follows blocks n l r post :=
  (h.behind hk).mono (Nat.le_add_left n k)

theorem step {r : Result α} (hstep : l.advance blocks = .ok (.running l'))
    (h : Follows blocks n l' r post) : Follows blocks n l r post :=
  h.after (.single hstep)

/-- What comes next is followed from the state that the first part has led to. -/
theorem andThen {r : Result α} {f : α → Console → Result β}
    {final : β → Console → Layered → Prop} (h : Follows blocks n l r post)
    (hf : ∀ a c l', post a c l' → Follows blocks n l' (f a c) final) :
    Follows blocks n l (r.andThen f) final := by
  cases r with
  | value a c =>
    obtain ⟨k, l', hl, hpost⟩ := h
    exact (hf a c l' hpost).after hl
  | ended | unfinished | stuck => exact h

/-- Steps that the evaluation does not see come last. -/
theorem extend {r : Result α} {final : α → Console → Layered → Prop}
    (h : Follows blocks n l r post)
    (hpost : ∀ a c l', post a c l' → Follows blocks n l' (.value a c) final) :
    Follows blocks n l r final := by
  cases r with
  | value a c =>
    obtain ⟨k, l', hl, hp⟩ := h
    exact (hpost a c l' hp).after hl
  | ended | unfinished | stuck => exact h

end Follows

end

/-! ## Code in its place

Symbolic code has labels in place of offsets and names in place of numbers. What ties it to the
bytes of a block is the encoder's specification, which a `Site` carries along. -/

/-- A block of an artifact, with the symbolic code that it was made from. -/
structure Site where
  blocks : Array TypedStack.Block
  directory : Directory
  block : TypedStack.Block
  instrs : List Instr
  encodes : EncodesCode directory instrs block.segment

namespace Site

variable {x : Site}

/-- A state in which the block is executed. -/
abbrev state (x : Site) (c : Console) (ip : Nat) (slots operands : List Value)
    (waiting : List Activation) : Layered :=
  ⟨c, ⟨x.block, ip, slots, operands⟩, waiting⟩

/-- Symbolic code stands in the block from one offset up to another. A mark takes no room, and an
instruction as much as its bytes. -/
def Spans (x : Site) : Nat → List Instr → Nat → Prop
  | i, [], j => i = j
  | i, .mark l :: rest, j => MarkedAt x.instrs l i ∧ Spans x i rest j
  | i, .op o :: rest, j => ∃ op k, x.block.segment.decode i = .ok (op, k) ∧
      Placed x.directory x.block.segment.pool (fun l t => MarkedAt x.instrs l t.toNat) o op ∧
        Spans x k rest j

/-- Code can be cut in two at any instruction, and the offset of the cut is determined. -/
theorem spans_append {i j : Nat} {a b : List Instr} :
    x.Spans i (a ++ b) j ↔ ∃ k, x.Spans i a k ∧ x.Spans k b j := by
  induction a generalizing i with
  | nil => simp [Spans]
  | cons first rest ih =>
    cases first with
    | mark l =>
      simp only [List.cons_append, Spans, ih]
      constructor
      · rintro ⟨hl, k, hrest, hb⟩
        exact ⟨k, ⟨hl, hrest⟩, hb⟩
      · rintro ⟨k, ⟨hl, hrest⟩, hb⟩
        exact ⟨hl, k, hrest, hb⟩
    | op o =>
      simp only [List.cons_append, Spans, ih]
      constructor
      · rintro ⟨op, n, hdecode, hop, k, hrest, hb⟩
        exact ⟨k, ⟨op, n, hdecode, hop, hrest⟩, hb⟩
      · rintro ⟨k, ⟨op, n, hdecode, hop, hrest⟩, hb⟩
        exact ⟨op, n, hdecode, hop, k, hrest, hb⟩

theorem spans_cons {i j : Nat} {first : Instr} {rest : List Instr} :
    x.Spans i (first :: rest) j ↔ ∃ k, x.Spans i [first] k ∧ x.Spans k rest j :=
  spans_append (a := [first])

theorem spans_mark {i j : Nat} {l : Label} :
    x.Spans i [.mark l] j ↔ MarkedAt x.instrs l i ∧ i = j := Iff.rfl

/-- By induction on what is left, with the offset counted by the sizes of the instructions
before. -/
theorem spans_from (x : Site) : ∀ before after : List Instr, x.instrs = before ++ after →
    x.Spans (codeSize before) after (codeSize x.instrs)
  | before, [], h => by
    rw [h, List.append_nil]
    rfl
  | before, .mark l :: after, h => by
    refine ⟨⟨before, after, h, rfl⟩, ?_⟩
    have hrest := x.spans_from (before ++ [.mark l]) after (by simp [h])
    simpa using hrest
  | before, .op o :: after, h => by
    obtain ⟨op, hdecode, hop⟩ := x.encodes.decode h
    refine ⟨op, _, hdecode, hop, ?_⟩
    have hrest := x.spans_from (before ++ [.op o]) after (by simp [h])
    simpa using hrest

/-- All of the code stands from the beginning of the block on. -/
theorem spans_all (x : Site) : x.Spans 0 x.instrs (codeSize x.instrs) :=
  x.spans_from [] x.instrs rfl

end Site

end Simulation

end TypedStack
