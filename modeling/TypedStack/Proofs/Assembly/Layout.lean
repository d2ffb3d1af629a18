import TypedStack.Assembly.Encode
import TypedStack.Proofs.Code.Related
import Mathlib.Data.List.Forall2
/-!
# Laying code out

To reason about encoded code, the assembler's pass is taken apart: a first pass that only finds
where everything stands, and a second that writes instructions with their labels resolved. That the
two together are the one pass with fixups is shown in the module on fixups; this one is about the
first.

`Layout.Holds` says what a layout knows of the code laid out so far: where each label stands, what
each instruction has been replaced by, and that the pool holds what the instructions refer to and
nothing else. Adding one instruction keeps it (`Layout.Holds.add`), so the layout of a block has it
for the whole code, and the reasons for which adding can fail are listed once (`Layout.add_error`).

The size of an instruction does not depend on its operands, and this is what makes the first pass
possible: the offset of a label is known before any instruction is written.
-/

set_option autoImplicit false

namespace TypedStack.Assembly

/-! ## Code as a list

Code mixes instructions with the marks of labels. Most statements are about the instructions alone
or about the labels alone, and these are lists of their own. -/

namespace Instr

/-- The bytes that an instruction takes; a mark takes none. -/
def size : Instr → Nat
  | .op o => o.size
  | .mark _ => 0

/-- The instruction, if it is one and not a mark. -/
def op? : Instr → Option SymbolicOp
  | .op o => some o
  | .mark _ => none

/-- The label that is marked, if it is a mark. -/
def mark? : Instr → Option Label
  | .op _ => none
  | .mark l => some l

end Instr

/-- The number of bytes of some code. -/
def codeSize : List Instr → Nat
  | [] => 0
  | i :: code => i.size + codeSize code

@[simp] theorem codeSize_nil : codeSize [] = 0 := rfl

@[simp] theorem codeSize_cons (i : Instr) (code : List Instr) :
    codeSize (i :: code) = i.size + codeSize code := rfl

@[simp] theorem codeSize_append (a b : List Instr) :
    codeSize (a ++ b) = codeSize a + codeSize b := by
  induction a with
  | nil => simp
  | cons i a ih =>
    rw [List.cons_append, codeSize_cons, codeSize_cons, ih, Nat.add_assoc]

@[simp] theorem size_op (o : SymbolicOp) : (Instr.op o).size = o.size := rfl

@[simp] theorem size_mark (l : Label) : (Instr.mark l).size = 0 := rfl

/-- The instructions of some code without its marks. -/
def opsOf (code : List Instr) : List SymbolicOp := code.filterMap Instr.op?

/-- The labels that some code marks. -/
def marksOf (code : List Instr) : List Label := code.filterMap Instr.mark?

@[simp] theorem opsOf_append (a b : List Instr) : opsOf (a ++ b) = opsOf a ++ opsOf b :=
  List.filterMap_append

@[simp] theorem marksOf_append (a b : List Instr) : marksOf (a ++ b) = marksOf a ++ marksOf b :=
  List.filterMap_append

@[simp] theorem opsOf_nil : opsOf [] = [] := rfl

@[simp] theorem opsOf_op (o : SymbolicOp) (code : List Instr) :
    opsOf (.op o :: code) = o :: opsOf code := rfl

@[simp] theorem opsOf_mark (l : Label) (code : List Instr) :
    opsOf (.mark l :: code) = opsOf code := rfl

@[simp] theorem marksOf_nil : marksOf [] = [] := rfl

@[simp] theorem marksOf_op (o : SymbolicOp) (code : List Instr) :
    marksOf (.op o :: code) = marksOf code := rfl

@[simp] theorem marksOf_mark (l : Label) (code : List Instr) :
    marksOf (.mark l :: code) = l :: marksOf code := rfl

theorem mem_opsOf {o : SymbolicOp} {code : List Instr} : o ∈ opsOf code ↔ .op o ∈ code := by
  induction code with
  | nil => simp
  | cons i code ih => cases i <;> simp [ih]

theorem mem_marksOf {l : Label} {code : List Instr} : l ∈ marksOf code ↔ .mark l ∈ code := by
  induction code with
  | nil => simp
  | cons i code ih => cases i <;> simp [ih]

/-- A label stands in the code at an offset, which is the size of the code before it. -/
def MarkedAt (code : List Instr) (l : Label) (offset : Nat) : Prop :=
  ∃ before after, code = before ++ .mark l :: after ∧ codeSize before = offset

theorem MarkedAt.mem {code : List Instr} {l : Label} {offset : Nat} (h : MarkedAt code l offset) :
    l ∈ marksOf code := by
  obtain ⟨before, after, rfl, _⟩ := h
  simp

theorem MarkedAt.le {code : List Instr} {l : Label} {offset : Nat} (h : MarkedAt code l offset) :
    offset ≤ codeSize code := by
  obtain ⟨before, after, rfl, rfl⟩ := h
  simp

/-- What a last instruction adds: a mark binds its label to the end of the code. An instruction that
is no mark binds nothing, and the labels before it stay where they are. -/
theorem markedAt_concat {code : List Instr} {i : Instr} {l : Label} {offset : Nat} :
    MarkedAt (code ++ [i]) l offset ↔
      MarkedAt code l offset ∨ i = .mark l ∧ offset = codeSize code := by
  constructor
  · rintro ⟨before, after, hcode, rfl⟩
    -- the mark is the last instruction, or the last instruction stands behind it
    rcases List.eq_nil_or_concat after with rfl | ⟨after', j, rfl⟩
    · obtain ⟨rfl, hi⟩ := List.append_inj' hcode rfl
      cases hi
      exact .inr ⟨rfl, rfl⟩
    · have hcode' : code ++ [i] = (before ++ .mark l :: after') ++ [j] := by simp [hcode]
      obtain ⟨rfl, _⟩ := List.append_inj' hcode' rfl
      exact .inl ⟨before, after', rfl, rfl⟩
  · rintro (⟨before, after, rfl, rfl⟩ | ⟨rfl, rfl⟩)
    · exact ⟨before, after ++ [i], by simp, rfl⟩
    · exact ⟨code, [], by simp, rfl⟩

/-! ## Interning constants

A constant is written as its index in the pool. The pool is searched first, so that no constant is
in it twice, and it is only ever extended: an index that was given out stays good. -/

theorem toNat_word {n : Nat} (h : n ≤ wordLimit) : (UInt16.ofNat n).toNat = n :=
  UInt16.toNat_ofNat_of_lt' (Nat.lt_succ_of_le h)

/-- The constant or message that an instruction refers to. -/
def constant? : SymbolicOp → Option Constant
  | .const c => some c
  | .printError text => some (.message text)
  | _ => none

/-- The block that an instruction calls. -/
def callee? : SymbolicOp → Option Callee
  | .call callee => some callee
  | _ => none

/-- Entries of the first pool stay where they are in the second. -/
def Grows (pool pool' : Array Constant) : Prop :=
  ∀ (j : Nat) (c : Constant), pool[j]? = some c → pool'[j]? = some c

theorem Grows.refl (pool : Array Constant) : Grows pool pool := fun _ _ h => h

theorem grows_push (pool : Array Constant) (c : Constant) : Grows pool (pool.push c) := by
  intro j x hx
  have hj : j < pool.size := (Array.getElem?_eq_some_iff.mp hx).1
  rw [Array.getElem?_push_lt hj]
  simpa [Array.getElem?_eq_getElem hj] using hx

/-- A constant is found in the pool, which then stays as it is, or it is new and goes to the end. -/
theorem intern_cases (pool : Array Constant) (c : Constant) :
    (∃ i, Segment.intern pool c = (pool, i) ∧ pool[i]? = some c) ∨
      (Segment.intern pool c = (pool.push c, pool.size) ∧ c ∉ pool) := by
  unfold Segment.intern
  cases hi : pool.idxOf? c with
  | some i =>
    rw [Array.idxOf?_eq_map_finIdxOf?_val, Option.map_eq_some_iff] at hi
    obtain ⟨k, hk, rfl⟩ := hi
    rw [Array.finIdxOf?_eq_some_iff] at hk
    exact .inl ⟨k, rfl, Array.getElem?_eq_some_iff.mpr ⟨k.isLt, hk.1⟩⟩
  | none => exact .inr ⟨rfl, Array.idxOf?_eq_none_iff.mp hi⟩

/-- What a successful interning does: the constant is at the index given, older entries stay, and no
other constant is new. -/
theorem intern_ok {c : Constant} {pool pool' : Array Constant} {i : UInt16}
    (h : intern c pool = .ok (i, pool')) :
    pool'[i.toNat]? = some c ∧ Grows pool pool' ∧ pool'.size ≤ wordLimit ∧
      pool'.size ≤ pool.size + 1 ∧ ∀ x ∈ pool', x ∈ pool ∨ x = c := by
  unfold intern at h
  rcases intern_cases pool c with ⟨j, hintern, hj⟩ | ⟨hintern, -⟩
  · simp only [hintern] at h
    split at h
    · cases h
    · next hsize =>
      cases h
      have hlt : j < pool.size := (Array.getElem?_eq_some_iff.mp hj).1
      have hword : (UInt16.ofNat j).toNat = j := toNat_word (by omega)
      exact ⟨by rw [hword]; exact hj, .refl _, by omega, by omega, fun x hx => .inl hx⟩
  · simp only [hintern] at h
    split at h
    · cases h
    · next hsize =>
      cases h
      have hword : (UInt16.ofNat pool.size).toNat = pool.size := by
        rw [Array.size_push] at hsize
        exact toNat_word (by omega)
      refine ⟨by rw [hword]; simp, grows_push _ _, by omega, by simp, fun x hx => ?_⟩
      simpa using hx

/-- The pool is full, counting the constant that has no room. -/
theorem intern_error {c : Constant} {pool : Array Constant} {e : BlockError}
    (h : intern c pool = .error e) : e = .tooManyConstants ∧ wordLimit ≤ pool.size := by
  unfold intern at h
  rcases intern_cases pool c with ⟨j, hintern, -⟩ | ⟨hintern, -⟩
  · simp only [hintern] at h
    split at h
    · cases h
      exact ⟨rfl, by omega⟩
    · cases h
  · simp only [hintern, Array.size_push] at h
    split at h
    · cases h
      exact ⟨rfl, by omega⟩
    · cases h

/-! ## Placing an instruction

Placing replaces constants, messages and callees by numbers and leaves the labels for later. -/

/-- What stands in placed code for the constants, messages and blocks of symbolic code. -/
abbrev Placed (d : Directory) (pool : Array Constant) {T : Type} (rt : Label → T → Prop) :
    SymbolicOp → Op UInt16 UInt16 UInt16 T → Prop :=
  Op.Related (fun c i => pool[i.toNat]? = some c)
    (fun text i => pool[i.toNat]? = some (.message text))
    (fun callee i => d.resolve callee = .ok i) rt

/-- What was placed with a pool is placed with every pool that extends it. -/
theorem Placed.grow {d : Directory} {pool pool' : Array Constant} {T : Type}
    {rt : Label → T → Prop} {o : SymbolicOp} {p : Op UInt16 UInt16 UInt16 T}
    (hg : Grows pool pool') (h : Placed d pool rt o p) : Placed d pool' rt o p :=
  h.mono (fun _ _ hc => hg _ _ hc) (fun _ _ hm => hg _ _ hm) (fun _ _ hb => hb) (fun _ _ ht => ht)

/-- What placing gives: the instruction with the pool after it, which has grown by the constant of
the instruction at most. The bound on the pool is asked for, because an instruction without a
constant does not check it. -/
theorem place_ok {d : Directory} {o : SymbolicOp} {pool pool' : Array Constant} {p : PlacedOp}
    (hsize : pool.size ≤ wordLimit) (h : place d o pool = .ok (p, pool')) :
    Placed d pool' Eq o p ∧ Grows pool pool' ∧ pool'.size ≤ wordLimit ∧
      pool'.size ≤ pool.size + 1 ∧ ∀ x ∈ pool', x ∈ pool ∨ constant? o = some x := by
  unfold place at h
  -- only a constant and a message touch the pool
  have same : ∀ {q : PlacedOp}, (pure q : StateT (Array Constant) (Except BlockError) PlacedOp) pool
      = .ok (p, pool') → Placed d pool Eq o q →
      Placed d pool' Eq o p ∧ Grows pool pool' ∧ pool'.size ≤ wordLimit ∧
        pool'.size ≤ pool.size + 1 ∧ ∀ x ∈ pool', x ∈ pool ∨ constant? o = some x := by
    intro q hq hrel
    obtain ⟨rfl, rfl⟩ := state_pure_ok.mp hq
    exact ⟨hrel, .refl _, hsize, Nat.le_succ _, fun x hx => .inl hx⟩
  cases o with
  | const c =>
    obtain ⟨i, hi, rfl⟩ := state_map_ok.mp h
    obtain ⟨hc, hg, hs, hone, hnew⟩ := intern_ok hi
    exact ⟨.const hc, hg, hs, hone, fun x hx => (hnew x hx).imp_right fun e => by rw [e]; rfl⟩
  | printError text =>
    obtain ⟨i, hi, rfl⟩ := state_map_ok.mp h
    obtain ⟨hc, hg, hs, hone, hnew⟩ := intern_ok hi
    exact ⟨.printError hc, hg, hs, hone, fun x hx => (hnew x hx).imp_right fun e => by rw [e]; rfl⟩
  | call callee =>
    obtain ⟨i, hi, rfl⟩ := state_map_ok.mp h
    obtain ⟨hr, rfl⟩ := state_lift_ok.mp hi
    exact ⟨.call hr, .refl _, hsize, Nat.le_succ _, fun x hx => .inl hx⟩
  | jump l =>
    obtain ⟨i, hi, rfl⟩ := state_map_ok.mp h
    exact same (q := .jump l) (by obtain ⟨rfl, rfl⟩ := state_pure_ok.mp hi; rfl) (.jump rfl)
  | jumpIf r l =>
    obtain ⟨i, hi, rfl⟩ := state_map_ok.mp h
    exact same (q := .jumpIf r l) (by obtain ⟨rfl, rfl⟩ := state_pure_ok.mp hi; rfl) (.jumpIf r rfl)
  | jumpIfTrue l =>
    obtain ⟨i, hi, rfl⟩ := state_map_ok.mp h
    exact same (q := .jumpIfTrue l) (by obtain ⟨rfl, rfl⟩ := state_pure_ok.mp hi; rfl)
      (.jumpIfTrue rfl)
  | _ => exact same h (by constructor)

/-- Placing fails for want of room in the pool, or because a call cannot be resolved. -/
theorem place_error {d : Directory} {o : SymbolicOp} {pool : Array Constant} {e : BlockError}
    (h : place d o pool = .error e) :
    (e = .tooManyConstants ∧ wordLimit ≤ pool.size) ∨
      ∃ callee, o = .call callee ∧ d.resolve callee = .error e := by
  unfold place at h
  -- Both kinds of instructions that intern something go through here.
  have interned : ∀ {c : Constant} {f : UInt16 → PlacedOp},
      (f <$> intern c) pool = .error e → e = .tooManyConstants ∧ wordLimit ≤ pool.size := by
    intro c f hf
    cases hi : intern c pool with
    | error e' =>
      have : (f <$> intern c) pool = .error e' := by
        show (intern c pool >>= fun q => .ok (f q.1, q.2)) = .error e'
        rw [hi]
        rfl
      rw [this] at hf
      cases hf
      exact intern_error hi
    | ok q =>
      have : (f <$> intern c) pool = .ok (f q.1, q.2) := by
        show (intern c pool >>= fun q => .ok (f q.1, q.2)) = _
        rw [hi]
        rfl
      rw [this] at hf
      cases hf
  cases o with
  | const c => exact .inl (interned h)
  | printError text => exact .inl (interned h)
  | call callee =>
    refine .inr ⟨callee, rfl, ?_⟩
    cases hr : d.resolve callee with
    | error e' =>
      simp only [Op.traverse, hr] at h
      cases h
      rfl
    | ok i =>
      simp only [Op.traverse, hr] at h
      cases h
  | _ => cases h

/-! ## The layout of a block

The invariant of the pass and what one step does to it, first where the step succeeds and then where
it fails. The fold over the code follows from the two by induction. -/

/-- What a first pass over the code finds that writes nothing: the sizes of instructions are known
without their operands, so the offsets of labels are too. -/
structure Layout where
  pool : Array Constant := #[]
  labels : Std.HashMap Label Nat := ∅
  /-- The offset of the next instruction. -/
  offset : Nat := 0
  ops : Array (PlacedOp × UInt32) := #[]

namespace Layout

/-- Adds one instruction or mark. -/
def add (d : Directory) (l : Layout) : Instr × UInt32 → Except BlockError Layout
  | (.mark label, _) =>
    if l.labels.contains label then .error (.duplicateLabel label)
    else .ok { l with labels := l.labels.insert label l.offset }
  | (.op o, line) =>
    match place d o l.pool with
    | .error e => .error e
    | .ok (placed, pool) =>
      .ok { l with pool, offset := l.offset + o.size, ops := l.ops.push (placed, line) }

/-- The layout of a block. -/
def ofBlock (d : Directory) (b : Block) : Except BlockError Layout :=
  b.lined.foldlM (add d) {}

end Layout

/-- What a layout knows of the code that it was made from. The pool is never larger than the code,
since an instruction has a byte at least and a constant at most; so code that fits has a pool that
fits. -/
structure Layout.Holds (d : Directory) (code : List Instr) (l : Layout) : Prop where
  offset : l.offset = codeSize code
  ops : List.Forall₂ (Placed d l.pool Eq) (opsOf code) (l.ops.toList.map Prod.fst)
  labels : ∀ label offset, l.labels[label]? = some offset ↔ MarkedAt code label offset
  distinct : (marksOf code).Nodup
  room : l.pool.size ≤ wordLimit
  small : l.pool.size ≤ codeSize code
  used : ∀ c ∈ l.pool, ∃ o ∈ opsOf code, constant? o = some c

theorem Layout.holds_empty (d : Directory) : Layout.Holds d [] {} where
  offset := rfl
  ops := .nil
  labels label offset := by
    constructor
    · intro h
      simp at h
    · rintro ⟨before, after, h, _⟩
      simp at h
  distinct := List.nodup_nil
  room := by simp [wordLimit]
  small := by simp
  used c hc := by simp at hc

/-- A label is unknown to the layout if it is not marked in the code. -/
theorem Layout.Holds.not_mem_iff {d : Directory} {code : List Instr} {l : Layout}
    (h : l.Holds d code) (label : Label) :
    l.labels.contains label = false ↔ label ∉ marksOf code := by
  have hc := Std.HashMap.contains_eq_isSome_getElem? (m := l.labels) (a := label)
  constructor
  · intro hf hm
    obtain ⟨before, after, hcode⟩ := List.append_of_mem (mem_marksOf.mp hm)
    have := (h.labels label _).mpr ⟨before, after, hcode, rfl⟩
    rw [this, hf] at hc
    cases hc
  · intro hm
    cases hg : l.labels[label]? with
    | none => rw [hc, hg]; rfl
    | some offset => exact absurd ((h.labels _ _).mp hg).mem hm

/-- **One more instruction.** A mark has to be of a new label, and then the label is bound to the
end of the code. An instruction is placed, and it is related to what was placed for it from then
on. -/
theorem Layout.Holds.add {d : Directory} {code : List Instr} {l l' : Layout} {i : Instr}
    {line : UInt32} (h : l.Holds d code) (ha : l.add d (i, line) = .ok l') :
    l'.Holds d (code ++ [i]) := by
  cases i with
  | mark label =>
    simp only [Layout.add] at ha
    split at ha
    · cases ha
    · next hnew =>
      cases ha
      have hfresh : label ∉ marksOf code := (h.not_mem_iff label).mp (by simpa using hnew)
      refine ⟨by simp [h.offset], by simpa using h.ops, ?_, ?_, h.room, by simpa using h.small,
        by simpa using h.used⟩
      · -- the new label stands at the end, and nowhere else since it is fresh
        intro x offset
        rw [Std.HashMap.getElem?_insert, markedAt_concat, ← h.labels]
        by_cases hx : label = x
        · subst hx
          have hnone : l.labels[label]? = none := by
            cases hg : l.labels[label]? with
            | none => rfl
            | some o => exact absurd ((h.labels _ _).mp hg).mem hfresh
          simp [hnone, h.offset, eq_comm]
        · simp [hx]
      · rw [marksOf_append]
        exact List.nodup_append.mpr ⟨h.distinct, by simp, by
          intro a ha b hb
          simp only [marksOf_mark, marksOf_nil, List.mem_singleton] at hb
          rintro rfl
          exact hfresh (hb ▸ ha)⟩
  | op o =>
    simp only [Layout.add] at ha
    split at ha
    · cases ha
    · next p pool hp =>
      cases ha
      obtain ⟨hrel, hgrow, hroom, hone, hnew⟩ := place_ok h.room hp
      refine ⟨by simp [h.offset], ?_, ?_, by simpa using h.distinct, hroom, ?_, ?_⟩
      · -- what was placed with the old pool is also placed with the new one
        have hold := h.ops.imp fun _ _ hq => Placed.grow hgrow hq
        simpa using List.rel_append hold (.cons hrel .nil)
      · intro x offset
        rw [markedAt_concat, ← h.labels]
        simp
      · -- the pool grows by one entry at most, and the code by one byte at least
        have hsmall := h.small
        have hpos : 0 < o.size := o.opcode.size_pos
        simp only [codeSize_append, codeSize_cons, size_op, codeSize_nil]
        omega
      · intro c hc
        rcases hnew c hc with hc | hc
        · obtain ⟨o', ho', hco⟩ := h.used c hc
          exact ⟨o', by simp [ho'], hco⟩
        · exact ⟨o, by simp, hc⟩

/-- Adding fails for want of room, at a label that is marked already, or at a call that cannot be
resolved. -/
theorem Layout.add_error {d : Directory} {code : List Instr} {l : Layout} {i : Instr}
    {line : UInt32} {e : BlockError} (h : l.Holds d code) (ha : l.add d (i, line) = .error e) :
    (e = .tooManyConstants ∧ wordLimit < codeSize (code ++ [i])) ∨
      (∃ label ∈ marksOf code, i = .mark label ∧ e = .duplicateLabel label) ∨
      ∃ callee, i = .op (.call callee) ∧ d.resolve callee = .error e := by
  cases i with
  | mark label =>
    simp only [Layout.add] at ha
    split at ha
    · next hold =>
      cases ha
      refine .inr (.inl ⟨label, ?_, rfl, rfl⟩)
      by_contra hn
      rw [(h.not_mem_iff label).mpr hn] at hold
      cases hold
    · cases ha
  | op o =>
    simp only [Layout.add] at ha
    split at ha
    · next e' hp =>
      cases ha
      rcases place_error hp with ⟨rfl, hfull⟩ | ⟨callee, rfl, hr⟩
      · have hsmall := h.small
        have hpos : 0 < o.size := o.opcode.size_pos
        refine .inl ⟨rfl, ?_⟩
        simp only [codeSize_append, codeSize_cons, size_op, codeSize_nil]
        omega
      · exact .inr (.inr ⟨callee, rfl, hr⟩)
    · cases ha

theorem Layout.Holds.fold {d : Directory} :
    ∀ {rest : List (Instr × UInt32)} {code : List Instr} {l l' : Layout}, l.Holds d code →
      rest.foldlM (Layout.add d) l = .ok l' → l'.Holds d (code ++ rest.map Prod.fst)
  | [], code, l, l', h, hf => by
    cases hf
    simpa using h
  | (i, line) :: rest, code, l, l', h, hf => by
    obtain ⟨mid, hadd, hrest⟩ := except_bind_ok.mp hf
    simpa using (h.add hadd).fold hrest

/-- A pass that fails does so at some instruction. What is wrong with it there is said in terms of
the whole code. -/
theorem Layout.fold_error {d : Directory} :
    ∀ {rest : List (Instr × UInt32)} {code : List Instr} {l : Layout} {e : BlockError},
      l.Holds d code → rest.foldlM (Layout.add d) l = .error e →
      (e = .tooManyConstants ∧ wordLimit < codeSize (code ++ rest.map Prod.fst)) ∨
        ¬ (marksOf (code ++ rest.map Prod.fst)).Nodup ∨
        ∃ callee, .op (.call callee) ∈ rest.map Prod.fst ∧ d.resolve callee = .error e
  | [], _, _, _, _, hf => by cases hf
  | (i, line) :: rest, code, l, e, h, hf => by
    rw [List.foldlM_cons] at hf
    cases hadd : l.add d (i, line) with
    | error e' =>
      rw [hadd] at hf
      cases hf
      rcases Layout.add_error h hadd with ⟨rfl, hlarge⟩ | ⟨label, hm, rfl, _⟩ | ⟨callee, rfl, hr⟩
      · refine .inl ⟨rfl, ?_⟩
        simp only [codeSize_append, codeSize_cons, codeSize_nil, List.map_cons] at hlarge ⊢
        omega
      · -- the label stands both before this instruction and here
        refine .inr (.inl fun hd => ?_)
        rw [marksOf_append, List.nodup_append] at hd
        exact hd.2.2 label hm label (by simp) rfl
      · exact .inr (.inr ⟨callee, by simp, hr⟩)
    | ok mid =>
      rw [hadd] at hf
      rcases Layout.fold_error (h.add hadd) hf with ⟨rfl, hlarge⟩ | hd | ⟨callee, hm, hr⟩
      · exact .inl ⟨rfl, by simpa using hlarge⟩
      · exact .inr (.inl (by simpa using hd))
      · exact .inr (.inr ⟨callee, List.mem_cons_of_mem _ hm, hr⟩)

theorem Block.lined_fst (b : Block) : b.lined.toList.map Prod.fst = b.instrs.toList := by
  unfold Block.lined
  apply List.ext_getElem
  · simp
  · intro i _ _
    simp

theorem Layout.ofBlock_eq (d : Directory) (b : Block) :
    Layout.ofBlock d b = b.lined.toList.foldlM (Layout.add d) {} := by
  unfold Layout.ofBlock
  rw [Array.foldlM_toList]

theorem Layout.holds_ofBlock {d : Directory} {b : Block} {l : Layout}
    (h : Layout.ofBlock d b = .ok l) : l.Holds d b.instrs.toList := by
  rw [Layout.ofBlock_eq] at h
  simpa [Block.lined_fst] using (Layout.holds_empty d).fold h

/-- A block cannot be laid out if its code is too large, a label is marked twice or a callee is
missing. Too many constants are reported as such, and never happen in code that fits. -/
theorem Layout.ofBlock_error {d : Directory} {b : Block} {e : BlockError}
    (h : Layout.ofBlock d b = .error e) :
    (e = .tooManyConstants ∧ wordLimit < codeSize b.instrs.toList) ∨
      ¬ (marksOf b.instrs.toList).Nodup ∨
      ∃ callee, .op (.call callee) ∈ b.instrs.toList ∧ d.resolve callee = .error e := by
  rw [Layout.ofBlock_eq] at h
  simpa [Block.lined_fst] using Layout.fold_error (Layout.holds_empty d) h

end TypedStack.Assembly
