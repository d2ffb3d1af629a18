import TypedStack.Proofs.Assembly.Fidelity
import TypedStack.Proofs.Machine.Frames
/-!
# Finding blocks by name

Names may repeat, and they are looked up in three tables that are made in three ways. The directory
of the assembler is filled from the last block to the first, and later entries replace earlier ones.
An artifact is searched from its first block on. The table of a machine is filled from the first
block to the last, and earlier entries stay. All three find the first block of a name
(`Assembly.lookups_agree`), so that the block whose signature a call was checked against is the
block that runs.
-/

set_option autoImplicit false

namespace TypedStack

namespace Machine

/-- A call of a name begins in the block that the name leads to. -/
theorem call_begins {m : Machine} {name : String} {arguments : List Value} {s : State}
    (h : m.call 0 name arguments = .unfinished s) :
    ∃ i, m.blocksByName[name]? = some i ∧ m.artifact.blocks[i]? = some s.frame.block := by
  unfold call at h
  split at h
  · cases h
  · next i hi =>
    refine ⟨i, hi, ?_⟩
    simp only at h
    split at h
    · cases h
    · split at h
      · cases h
      · unfold invoke at h
        split at h
        · cases h
        · next s₀ hbegin =>
          -- without fuel the run stays where it begins
          cases h
          obtain ⟨operands, frame, locals, rest, -, hactivate, rfl⟩ := begin_ok hbegin
          exact (activate_ok hactivate).block

end Machine

namespace Assembly

/-- The position of the first block of a name, or none if no block has it. -/
def Program.FirstAt (p : Program) (name : String) : Option Nat → Prop
  | none => ∀ b ∈ p.blocks, b.name ≠ name
  | some i => (∃ b, p.blocks[i]? = some b ∧ b.name = name) ∧
      ∀ j b, j < i → p.blocks[j]? = some b → b.name ≠ name

theorem Program.firstAt_search (p : Program) (name : String) :
    p.FirstAt name ((p.blocks.toList.map (·.name)).findIdx? (· == name)) := by
  cases hfound : (p.blocks.toList.map (·.name)).findIdx? (· == name) with
  | none =>
    rw [List.findIdx?_eq_none_iff] at hfound
    intro b hb
    have hname := hfound b.name (List.mem_map_of_mem (Array.mem_toList_iff.mpr hb))
    exact beq_eq_false_iff_ne.mp hname
  | some i =>
    rw [List.findIdx?_eq_some_iff_getElem] at hfound
    obtain ⟨hlt, hname, hbefore⟩ := hfound
    have hsize : i < p.blocks.size := by simpa using hlt
    refine ⟨⟨p.blocks[i], Array.getElem?_eq_getElem hsize, by simpa using hname⟩, ?_⟩
    intro j b hj hb
    obtain ⟨hjsize, rfl⟩ := Array.getElem?_eq_some_iff.mp hb
    simpa using hbefore j hj

/-! ## The directory

It is made from the blocks and knows positions and signatures. A call is written with the signature
that its author expects, and it is refused if the directory has another. -/

/-- An entry of the directory is a position with the signature of the block there. -/
theorem Program.directory_entry {p : Program} {name : String} {i : Nat} {signature : Signature} :
    p.directory[name]? = some (i, signature) ↔
      p.directory[name]?.map Prod.fst = some i ∧
        ∃ b, p.blocks[i]? = some b ∧ b.signature = signature := by
  constructor
  · intro h
    obtain ⟨b, hb, -, hsignature⟩ := Program.directory_some h
    exact ⟨by rw [h]; rfl, b, hb, hsignature⟩
  · rintro ⟨hindex, b, hb, rfl⟩
    obtain ⟨⟨j, signature⟩, hentry, rfl⟩ := Option.map_eq_some_iff.mp hindex
    obtain ⟨c, hc, -, rfl⟩ := Program.directory_some hentry
    -- the block of the entry is the block at its position
    rw [hb] at hc
    cases hc
    exact hentry

/-- A call is of an undefined block if the directory does not have its name. A wrong signature is
another error. -/
theorem Directory.resolve_undefined (d : Directory) (callee : Callee) :
    d.resolve callee = .error (.undefinedBlock callee.name) ↔ d[callee.name]? = none := by
  unfold Directory.resolve
  split
  · next hnone => simp [hnone]
  · next n declared hsome =>
    split <;> simp [hsome]

/-- A call is resolved to the position of its name, which fits 16 bits. -/
theorem Program.resolve_iff {p : Program} (hsize : p.blocks.size ≤ wordLimit) {name : String}
    {signature : Signature} {n : UInt16} :
    p.directory.resolve ⟨name, signature⟩ = .ok n ↔
      p.directory[name]?.map Prod.fst = some n.toNat ∧
        ∃ b, p.blocks[n.toNat]? = some b ∧ b.signature = signature := by
  rw [Directory.resolve_ok, ← Program.directory_entry]
  constructor
  · rintro ⟨i, hentry, rfl⟩
    obtain ⟨b, hb, -⟩ := Program.directory_some hentry
    have hlt : i < p.blocks.size := (Array.getElem?_eq_some_iff.mp hb).1
    rw [toNat_word (Nat.le_of_lt (Nat.lt_of_lt_of_le hlt hsize))]
    exact hentry
  · intro hentry
    exact ⟨n.toNat, hentry, UInt16.ofNat_toNat⟩

/-! ## Agreement

All the places where a name is looked up, in one statement, so that none can be forgotten. -/

/-- What a name comes to wherever it is looked up in a program and in its artifact. -/
structure Locates (p : Program) (a : Artifact) (name : String) (found : Option Nat) : Prop where
  /-- The position in the assembler's directory. -/
  directory : p.directory[name]?.map Prod.fst = found
  /-- A call of the name is resolved to the position, if it is written with the signature of the
  block there. -/
  resolves : ∀ (signature : Signature) (n : UInt16),
    p.directory.resolve ⟨name, signature⟩ = .ok n ↔
      found = some n.toNat ∧ ∃ b, p.blocks[n.toNat]? = some b ∧ b.signature = signature
  undefined : ∀ signature : Signature,
    p.directory.resolve ⟨name, signature⟩ = .error (.undefinedBlock name) ↔ found = none
  /-- Every call of the name in the encoded code holds the position. -/
  written : ∀ (k : Nat) (b : Block), p.blocks[k]? = some b → ∃ e listing,
    a.blocks[k]? = some e ∧ Segment.decodeAll e.segment.code = .ok listing ∧
      ∀ (j : Nat) (signature : Signature),
        (opsOf b.instrs.toList)[j]? = some (.call ⟨name, signature⟩) →
          ∃ n : UInt16, (listing.map Prod.snd)[j]? = some (.call n) ∧ found = some n.toNat
  searched : a.blockIndex? name = found
  /-- The position in the table of a machine. -/
  listed : ∀ limits : Limits, (Machine.mk a limits).blocksByName[name]? = found
  /-- A call from outside begins in the block at the position. -/
  begins : ∀ (limits : Limits) (arguments : List Value) (s : State),
    (Machine.mk a limits).call 0 name arguments = .unfinished s →
      ∃ i, found = some i ∧ a.blocks[i]? = some s.frame.block
  unknown : found = none → ∀ (limits : Limits) (fuel : Nat) (arguments : List Value),
    (Machine.mk a limits).call fuel name arguments =
      .ended (.error (.unknownBlock name)) (.ofInput [])

/-- The calls of a name in an encoded block hold the position that a search finds. -/
theorem Reproduces.call {a : Artifact} {b : Block} {e : TypedStack.Block}
    {listing : List (Nat × EncodedOp)} (h : Reproduces a b e listing) {j : Nat} {callee : Callee}
    (hj : (opsOf b.instrs.toList)[j]? = some (.call callee)) :
    ∃ n : UInt16, (listing.map Prod.snd)[j]? = some (.call n) ∧
      a.blockIndex? callee.name = some n.toNat := by
  obtain ⟨op, hop, hrelated⟩ := forall₂_getElem? h.ops hj
  cases hrelated with
  | call hindex => exact ⟨_, hop, hindex.1⟩

/-- **A name leads to its first block, whoever looks it up.** The position in the directory that
calls are resolved with, what a search through the artifact finds, and the position in the table of
a machine on the artifact are all that of the first block of the name, and if no block has the name
all of them are missing. -/
theorem lookups_agree {p : Program} {a : Artifact} (h : p.encode = .ok a) (name : String) :
    ∃ found, p.FirstAt name found ∧ Locates p a name found := by
  obtain ⟨-, hsize, -, hblocks⟩ := Program.encode_ok h
  refine ⟨_, p.firstAt_search name, ?_⟩
  have hdirectory := p.directory_index name
  have hsearched := Program.blockIndex?_encoded h name
  generalize (p.blocks.toList.map (·.name)).findIdx? (· == name) = found at hdirectory hsearched ⊢
  have hlisted : ∀ limits : Limits, (Machine.mk a limits).blocksByName[name]? = found := by
    intro limits
    rw [Machine.blocksByName_get, hsearched]
  refine ⟨hdirectory, ?_, ?_, ?_, hsearched, hlisted, ?_, ?_⟩
  · intro signature n
    rw [Program.resolve_iff hsize, hdirectory]
  · intro signature
    rw [← hdirectory, Option.map_eq_none_iff]
    exact Directory.resolve_undefined _ ⟨name, signature⟩
  · intro k b hb
    obtain ⟨e, he, hencodes⟩ := forall₂_getElem? hblocks (a := b) (by simpa using hb)
    obtain ⟨listing, hlisting⟩ := hencodes.reproduces h
    refine ⟨e, listing, by simpa using he, hlisting.decodes, ?_⟩
    intro j signature hj
    obtain ⟨n, hn, hindex⟩ := hlisting.call hj
    exact ⟨n, hn, hsearched ▸ hindex⟩
  · intro limits arguments s hs
    obtain ⟨i, hi, hblock⟩ := Machine.call_begins hs
    exact ⟨i, (hlisted limits).symm.trans hi, hblock⟩
  · rintro rfl limits fuel arguments
    simp only [Machine.call, hlisted]

/-- Two blocks are called `one`, and none is called `two`. -/
theorem lookups_agree_repeated :
    ∃ a, jumpingProgram.encode = .ok a ∧
      (jumpingProgram.FirstAt "one" (some 0) ∧ Locates jumpingProgram a "one" (some 0)) ∧
      jumpingProgram.FirstAt "two" none ∧ Locates jumpingProgram a "two" none := by
  obtain ⟨a, ha⟩ := jumpingProgram_encodes
  have hone : a.blockIndex? "one" = some 0 := by
    rw [Program.blockIndex?_encoded ha]
    decide
  have htwo : a.blockIndex? "two" = none := by
    rw [Program.blockIndex?_encoded ha]
    decide
  obtain ⟨found, hfirst, hfound⟩ := lookups_agree ha "one"
  obtain ⟨missing, hnone, hmissing⟩ := lookups_agree ha "two"
  obtain rfl := hfound.searched.symm.trans hone
  obtain rfl := hmissing.searched.symm.trans htwo
  exact ⟨a, ha, ⟨hfirst, hfound⟩, hnone, hmissing⟩

end Assembly

end TypedStack
