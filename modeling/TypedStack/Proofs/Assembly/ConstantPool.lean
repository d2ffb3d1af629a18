import Mathlib.Data.List.Dedup
import TypedStack.Proofs.Artifact.RoundTrip
import TypedStack.Proofs.Assembly.Encoding
/-!
# Constant pools

Constants are entered into a pool one after another, and each is given an index. `Collects` says
what a sequence of entries does to a pool; one entry has it (`addConstant_collects`) and it
composes, so that every sequence has it (`addConstants_collects`). A pool that began empty therefore
holds each constant once (`pool_exact`), where constants are the same only if they are of one kind
and agree in every bit. The first pass of the assembler enters the constants and messages of a block
in their order, so its pools are of this form (`encodeBlock_pool`).

Comparing bits is not comparing numbers. The zeros of both signs are equal as numbers and have two
entries, and a NaN is equal to no number and has one entry for each of its payloads.
-/

set_option autoImplicit false

namespace TypedStack

/-! ## Bits of constants

A constant is determined by its type and its bits. A message has no type, and its bits are its text.
-/

theorem littleEndian_inj {width m n : Nat} (hm : m < Nat.pow 256 width) (hn : n < Nat.pow 256 width)
    (h : littleEndian width m = littleEndian width n) : m = n := by
  have hread : m % Nat.pow 256 width = n % Nat.pow 256 width := by
    rw [← ofLittleEndian_littleEndian, h, ofLittleEndian_littleEndian]
  rwa [Nat.mod_eq_of_lt hm, Nat.mod_eq_of_lt hn] at hread

theorem textBytes_inj {s t : String} (h : textBytes s = textBytes t) : s = t := by
  have hread := textOfBytes?_textBytes s
  rw [h, textOfBytes?_textBytes t] at hread
  exact (Option.some.inj hread).symm

/-- The bits of a value in bytes, lowest first. -/
def Value.bits : Value → List UInt8
  | .int n => littleEndian 8 n.toUInt64.toNat
  | .char c => littleEndian 2 c.toNat
  | .float x => littleEndian 4 x.toNat
  | .bool b => [if b then 1 else 0]
  | .double x => littleEndian 8 x.toNat

/-- The bits of a constant; those of a message are its text in UTF-8. -/
def Constant.bits : Constant → List UInt8
  | .value v => v.bits
  | .message text => textBytes text

/-- Values of one type are the same if their bits are. One case per type, each with the width of its
field. -/
theorem Value.eq_of_bits {v w : Value} (htype : v.type = w.type) (hbits : v.bits = w.bits) :
    v = w := by
  cases v with
  | int n =>
    cases w with
    | int k =>
      have hword := UInt64.toNat_inj.mp
        (littleEndian_inj n.toUInt64.toNat_lt k.toUInt64.toNat_lt hbits)
      rw [← Int64.toInt64_toUInt64 n, hword, Int64.toInt64_toUInt64]
    | _ => cases htype
  | char c =>
    cases w with
    | char d => rw [UInt16.toNat_inj.mp (littleEndian_inj c.toNat_lt d.toNat_lt hbits)]
    | _ => cases htype
  | float x =>
    cases w with
    | float y => rw [UInt32.toNat_inj.mp (littleEndian_inj x.toNat_lt y.toNat_lt hbits)]
    | _ => cases htype
  | bool b =>
    cases w with
    | bool c =>
      revert hbits
      cases b <;> cases c <;> decide
    | _ => cases htype
  | double x =>
    cases w with
    | double y => rw [UInt64.toNat_inj.mp (littleEndian_inj x.toNat_lt y.toNat_lt hbits)]
    | _ => cases htype

/-- Constants are the same if they are of one kind and agree in every bit. -/
theorem Constant.eq_iff_bits (c d : Constant) : c = d ↔ c.type? = d.type? ∧ c.bits = d.bits := by
  constructor
  · rintro rfl
    exact ⟨rfl, rfl⟩
  · rintro ⟨htype, hbits⟩
    cases c with
    | value v =>
      cases d with
      | value w => rw [Value.eq_of_bits (Option.some.inj htype) hbits]
      | message text => cases htype
    | message text =>
      cases d with
      | value w => cases htype
      | message text' => rw [textBytes_inj hbits]

/-! ## Entering constants

One entry looks for its constant and adds it only where it is not found. -/

namespace Segment

/-- Enters constants one after another and gives the index of each. -/
def addConstants (s : Segment) : List Constant → Segment × List Nat
  | [] => (s, [])
  | c :: cs =>
    let added := s.addConstant c
    let rest := added.1.addConstants cs
    (rest.1, added.2 :: rest.2)

/-- Entering in two goes gives the same pool and the same indices. -/
theorem addConstants_append (s : Segment) (cs ds : List Constant) :
    s.addConstants (cs ++ ds) =
      (((s.addConstants cs).1.addConstants ds).1,
        (s.addConstants cs).2 ++ ((s.addConstants cs).1.addConstants ds).2) := by
  induction cs generalizing s with
  | nil => rfl
  | cons c cs ih => simp only [List.cons_append, addConstants, ih]

/-- The pool with constants in it. -/
def internAll (pool : Array Constant) (cs : List Constant) : Array Constant :=
  cs.foldl (fun pool c => (intern pool c).1) pool

theorem addConstants_pool (s : Segment) (cs : List Constant) :
    (s.addConstants cs).1.pool = internAll s.pool cs := by
  induction cs generalizing s with
  | nil => rfl
  | cons c cs ih => exact ih (s.addConstant c).1

/-- What a sequence of entries does to a pool: each constant is at its index, older entries stay,
nothing else is added, and nothing is in the pool twice that was not before. -/
structure Collects (cs : List Constant) (indices : List Nat) (pool pool' : Array Constant) :
    Prop where
  /-- Every constant is at the index given for it. -/
  holds : List.Forall₂ (fun c i => pool'[i]? = some c) cs indices
  grows : Assembly.Grows pool pool'
  members : ∀ x, x ∈ pool' ↔ x ∈ pool ∨ x ∈ cs
  distinct : pool.toList.Nodup → pool'.toList.Nodup

theorem Collects.nil (pool : Array Constant) : Collects [] [] pool pool :=
  ⟨.nil, .refl pool, by simp, id⟩

/-- One sequence of entries after another. The indices given first stay good, since the pool only
grows. -/
theorem Collects.append {cs cs' : List Constant} {indices indices' : List Nat}
    {pool pool' pool'' : Array Constant} (h : Collects cs indices pool pool')
    (h' : Collects cs' indices' pool' pool'') :
    Collects (cs ++ cs') (indices ++ indices') pool pool'' where
  holds := List.rel_append (h.holds.imp fun _ _ hc => h'.grows _ _ hc) h'.holds
  grows := fun _ _ hc => h'.grows _ _ (h.grows _ _ hc)
  members x := by rw [h'.members, h.members, List.mem_append, or_assoc]
  distinct hd := h'.distinct (h.distinct hd)

/-- In a pool without repetitions a constant has one index, and an index has one constant. -/
theorem Collects.index_eq_iff {cs : List Constant} {indices : List Nat}
    {pool pool' : Array Constant} (h : Collects cs indices pool pool') (hd : pool.toList.Nodup)
    {j k i i' : Nat} {c d : Constant} (hc : cs[j]? = some c) (hcd : cs[k]? = some d)
    (hi : indices[j]? = some i) (hi' : indices[k]? = some i') : i = i' ↔ c = d := by
  have hat : ∀ {k i : Nat} {c : Constant}, cs[k]? = some c → indices[k]? = some i →
      pool'.toList[i]? = some c := by
    intro k i c hc hi
    obtain ⟨i', hi', hpool⟩ := forall₂_getElem? h.holds hc
    rw [hi] at hi'
    cases hi'
    rw [Array.getElem?_toList]
    exact hpool
  have hci := hat hc hi
  have hdi := hat hcd hi'
  constructor
  · rintro rfl
    exact Option.some.inj (hci.symm.trans hdi)
  · rintro rfl
    have hlt : i < pool'.toList.length := (List.getElem?_eq_some_iff.mp hci).1
    exact (List.getElem?_inj hlt (h.distinct hd)).mp (hci.trans hdi.symm)

/-- A pool that began empty has a place for each of the different constants. -/
theorem Collects.size_eq {cs : List Constant} {indices : List Nat} {pool : Array Constant}
    (h : Collects cs indices #[] pool) : pool.size = cs.dedup.length := by
  have hd : pool.toList.Nodup := h.distinct List.nodup_nil
  have hperm : pool.toList.Perm cs.dedup := by
    rw [List.perm_ext_iff_of_nodup hd cs.nodup_dedup]
    intro x
    rw [Array.mem_toList_iff, h.members, List.mem_dedup]
    simp
  rw [← Array.length_toList, hperm.length_eq]

/-- One entry adds its constant, unless the pool has it, and gives the place where it is. -/
theorem addConstant_collects (s : Segment) (c : Constant) :
    Collects [c] [(s.addConstant c).2] s.pool (s.addConstant c).1.pool := by
  unfold addConstant
  rcases Assembly.intern_cases s.pool c with ⟨i, hintern, hi⟩ | ⟨hintern, hnew⟩
  · rw [hintern]
    refine ⟨.cons hi .nil, .refl _, ?_, id⟩
    intro x
    rw [List.mem_singleton]
    constructor
    · exact .inl
    · rintro (hx | rfl)
      · exact hx
      · exact Array.mem_of_getElem? hi
  · rw [hintern]
    refine ⟨.cons (by simp) .nil, Assembly.grows_push _ _, by simp, ?_⟩
    -- only a constant that the pool lacks is pushed
    intro hd
    rw [Array.toList_push, List.nodup_append]
    refine ⟨hd, List.nodup_singleton c, ?_⟩
    intro x hx y hy
    rw [List.mem_singleton] at hy
    rintro rfl
    exact hnew (hy ▸ Array.mem_toList_iff.mp hx)

/-- What one entry does, every sequence of entries does. -/
theorem addConstants_collects (s : Segment) (cs : List Constant) :
    Collects cs (s.addConstants cs).2 s.pool (s.addConstants cs).1.pool := by
  induction cs generalizing s with
  | nil => exact .nil s.pool
  | cons c cs ih => exact (addConstant_collects s c).append (ih (s.addConstant c).1)

/-- An index that was given holds its constant at once and after every further entry. -/
theorem addConstants_keeps (s : Segment) {cs : List Constant} {k : Nat} {c : Constant}
    (hc : cs[k]? = some c) :
    ∃ i, (s.addConstants cs).2[k]? = some i ∧
      ∀ n, k < n → (s.addConstants (cs.take n)).1.pool[i]? = some c := by
  obtain ⟨i, hi, -⟩ := forall₂_getElem? (s.addConstants_collects cs).holds hc
  refine ⟨i, hi, ?_⟩
  intro n hn
  have hc' : (cs.take n)[k]? = some c := by rw [List.getElem?_take_of_lt hn, hc]
  obtain ⟨i', hi', hpool⟩ :=
    forall₂_getElem? (s.addConstants_collects (cs.take n)).holds hc'
  -- the first indices are given before the other constants are known
  have hlt := (List.getElem?_eq_some_iff.mp hi').1
  rw [← List.take_append_drop n cs, addConstants_append, List.getElem?_append_left hlt, hi'] at hi
  cases hi
  exact hpool

end Segment

/-! ## Pools of blocks

Encoding a block enters the constants of its instructions in their order, and nothing else. -/

namespace Assembly

/-- Interning is entering one constant, with a check of the size behind it. -/
theorem intern_pool {c : Constant} {pool pool' : Array Constant} {i : UInt16}
    (h : intern c pool = .ok (i, pool')) : Segment.internAll pool [c] = pool' := by
  unfold intern at h
  simp only at h
  split at h
  · cases h
  · cases h
    rfl

/-- Only a constant and a message touch the pool. -/
theorem place_pool {d : Directory} {o : SymbolicOp} {pool pool' : Array Constant} {p : PlacedOp}
    (h : place d o pool = .ok (p, pool')) :
    Segment.internAll pool (constant? o).toList = pool' := by
  unfold place at h
  cases o with
  | const c =>
    obtain ⟨i, hi, -⟩ := state_map_ok.mp h
    exact intern_pool hi
  | printError text =>
    obtain ⟨i, hi, -⟩ := state_map_ok.mp h
    exact intern_pool hi
  | call callee =>
    obtain ⟨i, hi, -⟩ := state_map_ok.mp h
    exact (state_lift_ok.mp hi).2
  | jump l | jumpIf r l | jumpIfTrue l =>
    obtain ⟨i, hi, -⟩ := state_map_ok.mp h
    exact (state_pure_ok.mp hi).2
  | _ => exact (state_pure_ok.mp h).2

/-- The constants and messages of some code in their order, with repetitions. -/
def constantsIn (code : List Instr) : List Constant := (opsOf code).filterMap constant?

/-- An instruction enters its constant, if it has one, and a mark enters nothing. -/
theorem Layout.add_pool {d : Directory} {l l' : Layout} {i : Instr} {line : UInt32}
    (h : l.add d (i, line) = .ok l') : Segment.internAll l.pool (constantsIn [i]) = l'.pool := by
  cases i with
  | mark label =>
    simp only [Layout.add] at h
    split at h
    · cases h
    · cases h
      rfl
  | op o =>
    simp only [Layout.add] at h
    split at h
    · cases h
    · next p pool hp =>
      cases h
      have hone : constantsIn [.op o] = (constant? o).toList := by
        cases hc : constant? o <;> simp [constantsIn, hc]
      rw [hone]
      exact place_pool hp

theorem Layout.fold_pool {d : Directory} {rest : List (Instr × UInt32)} {l l' : Layout}
    (h : rest.foldlM (Layout.add d) l = .ok l') :
    Segment.internAll l.pool (constantsIn (rest.map Prod.fst)) = l'.pool := by
  induction rest generalizing l with
  | nil =>
    cases h
    rfl
  | cons q rest ih =>
    obtain ⟨mid, hadd, hrest⟩ := except_bind_ok.mp h
    rw [List.map_cons, ← List.singleton_append, constantsIn, opsOf_append, List.filterMap_append,
      Segment.internAll, List.foldl_append]
    have hfirst : Segment.internAll l.pool (constantsIn [q.1]) = mid.pool := Layout.add_pool hadd
    exact (congrArg (Segment.internAll · (constantsIn (rest.map Prod.fst))) hfirst).trans (ih hrest)

/-- The pool of an encoded block is what entering its constants in their order gives. -/
theorem encodeBlock_pool {d : Directory} {b : Block} {e : TypedStack.Block}
    (h : encodeBlock d b = .ok e) :
    e.segment.pool = (Segment.addConstants {} (constantsIn b.instrs.toList)).1.pool := by
  obtain ⟨-, s, hs, rfl⟩ := encodeBlock_parts h
  obtain ⟨-, -, layout, hlayout, -, hwrite⟩ := encodeBody_checks.mp hs
  obtain ⟨-, -, -, hpool, -⟩ := writeOps_ok (by simp) hwrite
  rw [Layout.ofBlock_eq] at hlayout
  have hfold := Layout.fold_pool hlayout
  rw [Block.lined_fst] at hfold
  rw [Segment.addConstants_pool, hfold]
  exact hpool

end Assembly

/-! ## Exactness

The parts put together for the pool of an empty segment. -/

/-- **A pool holds each constant once.** When constants are entered one after another into the pool
of an empty segment, every entry is given an index that holds its constant from then on, no two
places of the pool hold the same constant, two entries are given the same index just if their
constants are of one kind and agree in every bit, and there are as many places as different
constants. The pool of an encoded block is the one that its constants and messages give. -/
theorem pool_exact {cs : List Constant} {s : Segment} {indices : List Nat}
    (h : Segment.addConstants {} cs = (s, indices)) :
    indices.length = cs.length ∧
    (∀ (k : Nat) (c : Constant), cs[k]? = some c → ∃ i, indices[k]? = some i ∧
      ∀ n, k < n → (Segment.addConstants {} (cs.take n)).1.pool[i]? = some c) ∧
    s.pool.toList.Nodup ∧
    (∀ (j k : Nat) (c d : Constant) (i i' : Nat), cs[j]? = some c → cs[k]? = some d →
      indices[j]? = some i → indices[k]? = some i' →
      (i = i' ↔ c.type? = d.type? ∧ c.bits = d.bits)) ∧
    s.pool.size = cs.dedup.length ∧
    ∀ (d : Assembly.Directory) (b : Assembly.Block) (e : Block),
      Assembly.encodeBlock d b = .ok e → Assembly.constantsIn b.instrs.toList = cs →
      e.segment.pool = s.pool := by
  have hcollects := Segment.addConstants_collects {} cs
  rw [h] at hcollects
  refine ⟨hcollects.holds.length_eq.symm, ?_, hcollects.distinct List.nodup_nil, ?_,
    hcollects.size_eq, ?_⟩
  · intro k c hc
    have hkeeps := Segment.addConstants_keeps {} hc
    rw [h] at hkeeps
    exact hkeeps
  · intro j k c d i i' hc hd hi hi'
    rw [hcollects.index_eq_iff List.nodup_nil hc hd hi hi', Constant.eq_iff_bits]
  · rintro d b e he rfl
    rw [Assembly.encodeBlock_pool he, h]

/-- Zeros of both signs, NaNs of different payload, and a one of three kinds stay apart. -/
def closeConstants : List Constant :=
  [.value (.double 0), .value (.double 0x8000000000000000), .value (.double 0x7FF8000000000000),
    .value (.double 0x7FF8000000000001), .value (.int 1), .value (.double 0x3FF0000000000000),
    .message "1", .value (.double 0), .value (.int 1)]

theorem pool_exact_close :
    ∃ s, Segment.addConstants {} closeConstants = (s, [0, 1, 2, 3, 4, 5, 6, 0, 4]) ∧
      s.pool.toList.Nodup ∧ s.pool.size = 7 := by
  have h : Segment.addConstants {} closeConstants =
      ((Segment.addConstants {} closeConstants).1, [0, 1, 2, 3, 4, 5, 6, 0, 4]) := by
    decide +kernel
  obtain ⟨-, -, hdistinct, -, hsize, -⟩ := pool_exact h
  exact ⟨_, h, hdistinct, hsize.trans (by decide +kernel)⟩

end TypedStack
