import TypedStack.Proofs.Assembly.Typed
/-!
# What keeps a program from being encoded

The assembler reports labels and callees that do not exist, and code that does not fit the fields of
the format. In a typed program labels and callees do exist, so that it is encoded if and only if its
sizes fit (`Program.Typed.encode_error`, `Program.encode_fits`).

Errors of the second kind are told apart by `isCapacity`. They are no fault of the program, and a
compiler cannot rule them out by checking types; so this is the form in which its guarantee reaches
the bytes.
-/

set_option autoImplicit false

namespace TypedStack.Assembly

/-! ## Sizes

What can be too large about a program, and the errors that say so. -/

/-- A fixed-width field of the artifact is too narrow. -/
def BlockError.isCapacity : BlockError → Bool
  | .codeTooLarge | .tooManyConstants | .tooManySlots | .tooManyParams => true
  | _ => false

/-- The error is about a size and about nothing else. A program that the verifier rejects is no such
case. -/
def AssembleError.isCapacity : AssembleError → Bool
  | .inBlock _ cause => cause.isCapacity
  | .nameTooLong _ | .tooManyBlocks => true
  | .rejected _ => false

/-- The sizes of a block fit the fields of the format. The constant pool needs no bound of its own:
an instruction enters one constant at most. -/
def Block.Fits (b : Block) : Prop :=
  b.name.utf8ByteSize ≤ wordLimit ∧ b.signature.params.length ≤ 255 ∧ b.slots.size ≤ wordLimit ∧
    codeSize b.instrs.toList ≤ wordLimit

instance (b : Block) : Decidable b.Fits := inferInstanceAs (Decidable (_ ∧ _ ∧ _ ∧ _))

/-- The sizes of a program fit the fields of the format. -/
def Program.Fits (p : Program) : Prop :=
  p.name.utf8ByteSize ≤ wordLimit ∧ p.blocks.size ≤ wordLimit ∧ ∀ b ∈ p.blocks, b.Fits

instance (p : Program) : Decidable p.Fits := inferInstanceAs (Decidable (_ ∧ _ ∧ ∀ b ∈ _, _))

/-! ## Why encoding fails

Each part of the encoder, with the reasons for which it can fail. A reason is a property of the
symbolic program, so that it can be compared with its types. -/

/-- What is encoded fits: every count has been checked against its field on the way. -/
theorem Program.encode_fits {p : Program} {a : Artifact} (h : p.encode = .ok a) : p.Fits := by
  obtain ⟨-, hsize, hname, hblocks⟩ := Program.encode_ok h
  refine ⟨hname, hsize, fun b hb => ?_⟩
  obtain ⟨e, -, hencodes⟩ := forall₂_mem_right hblocks.flip (Array.mem_toList_iff.mpr hb)
  exact ⟨hencodes.name_le, hencodes.params_le, hencodes.slots_le, hencodes.code.size_le⟩

/-- Only a jump to a label without an offset cannot be written. -/
theorem writeOp_error {labels : Std.HashMap Label Nat} {s : Segment} {q : PlacedOp × UInt32}
    {e : BlockError} (h : writeOp labels s q = .error e) :
    ∃ l, q.1.target? = some l ∧ labels[l]? = none := by
  have htarget : ∀ {l : Label} {f : UInt16 → EncodedOp},
      (f <$> targetOffset labels l : Except BlockError EncodedOp) = .error e →
        labels[l]? = none := by
    intro l f hf
    unfold targetOffset at hf
    split at hf
    · cases hf
    · next hnone => exact hnone
  obtain ⟨o, line⟩ := q
  unfold writeOp at h
  split at h
  · next e' he =>
    cases h
    cases o with
    | jump l => exact ⟨l, rfl, htarget he⟩
    | jumpIf relation l => exact ⟨l, rfl, htarget he⟩
    | jumpIfTrue l => exact ⟨l, rfl, htarget he⟩
    | _ => cases he
  · cases h

/-- The second pass fails only at a jump to a label that the first pass has not found. -/
theorem writeOps_error {labels : Std.HashMap Label Nat} {e : BlockError} :
    ∀ {qs : List (PlacedOp × UInt32)} {s : Segment}, qs.foldlM (writeOp labels) s = .error e →
      ∃ q ∈ qs.map Prod.fst, ∃ l, q.target? = some l ∧ labels[l]? = none
  | [], s, h => by cases h
  | q :: qs, s, h => by
    rw [List.foldlM_cons] at h
    cases hq : writeOp labels s q with
    | error e' =>
      obtain ⟨l, hl, hnone⟩ := writeOp_error hq
      exact ⟨q.1, by simp, l, hl, hnone⟩
    | ok s' =>
      rw [hq] at h
      obtain ⟨q', hq', hl⟩ := writeOps_error h
      exact ⟨q', List.mem_cons_of_mem _ hq', hl⟩

/-- Placing leaves the target of a jump as it is. -/
theorem Placed.target_eq {d : Directory} {pool : Array Constant} {o : SymbolicOp} {q : PlacedOp}
    (h : Placed d pool Eq o q) : o.target? = q.target? := by
  cases h with
  | jump h => exact congrArg some h
  | jumpIf _ h => exact congrArg some h
  | jumpIfTrue h => exact congrArg some h
  | _ => rfl

/-- **Why a block is not encoded.** It is too large, a label is marked twice, a callee is not found,
or a jump has no target. The checks are gone through in the order in which they are made. -/
theorem encodeBody_error {d : Directory} {b : Block} {e : BlockError}
    (h : encodeBody d b = .error e) :
    (e.isCapacity = true ∧ ¬ b.Fits) ∨ ¬ (marksOf b.instrs.toList).Nodup ∨
      (∃ callee, .op (.call callee) ∈ b.instrs.toList ∧ d.resolve callee = .error e) ∨
      ∃ o l, .op o ∈ b.instrs.toList ∧ o.target? = some l ∧ l ∉ marksOf b.instrs.toList := by
  rw [encodeBody_eq, layOutAndWrite] at h
  simp only [except_throw_bind] at h
  split at h
  · next hparams =>
    cases h
    exact .inl ⟨rfl, fun hfits => Nat.not_lt_of_le hfits.2.1 hparams⟩
  · split at h
    · next hslots =>
      cases h
      exact .inl ⟨rfl, fun hfits => Nat.not_lt_of_le hfits.2.2.1 hslots⟩
    · cases hlayout : Layout.ofBlock d b with
      | error e' =>
        rw [hlayout] at h
        cases h
        rcases Layout.ofBlock_error hlayout with ⟨rfl, hlarge⟩ | hmarks | hcallee
        · exact .inl ⟨rfl, fun hfits => Nat.not_lt_of_le hfits.2.2.2 hlarge⟩
        · exact .inr (.inl hmarks)
        · exact .inr (.inr (.inl hcallee))
      | ok layout =>
        have hholds := Layout.holds_ofBlock hlayout
        rw [hlayout] at h
        change (if _ then _ else _) = _ at h
        split at h
        · next hlarge =>
          cases h
          rw [hholds.offset] at hlarge
          exact .inl ⟨rfl, fun hfits => Nat.not_lt_of_le hfits.2.2.2 hlarge⟩
        · -- a label without an offset is not marked anywhere
          obtain ⟨q, hq, l, hl, hnone⟩ := writeOps_error h
          obtain ⟨o, ho, hplaced⟩ := forall₂_mem_right hholds.ops hq
          refine .inr (.inr (.inr ⟨o, l, mem_opsOf.mp ho, hplaced.target_eq.trans hl, ?_⟩))
          refine (hholds.not_mem_iff l).mp ?_
          rw [Std.HashMap.contains_eq_isSome_getElem?, hnone]
          rfl

/-! ## Typed programs

In a typed program only one kind of reason is left. -/

/-- The target of a typed jump is marked: the type of the jump names the types of the stack at its
target, and so there has to be one. -/
theorem Block.Typed.target_marked {b : Block} {ann : List Annotated} (h : b.Typed ann)
    {o : SymbolicOp} {l : Label} (ho : .op o ∈ b.instrs.toList) (hl : o.target? = some l) :
    l ∈ marksOf b.instrs.toList := by
  rw [← h.instrs] at ho
  obtain ⟨⟨s, i⟩, hmem, hi⟩ := List.mem_map.mp ho
  simp only at hi
  subst hi
  obtain ⟨pre, post, hann⟩ := List.append_of_mem hmem
  obtain ⟨t, hhere⟩ := h.flows_at hann
  obtain ⟨out, hop, -⟩ := hhere.op_typed
  have hmarked : ∃ u, (u, Instr.mark l) ∈ ann := by
    cases hop with
    | jump hm =>
      cases hl
      exact ⟨_, hm⟩
    | jumpIf hm =>
      cases hl
      exact ⟨_, hm⟩
    | jumpIfTrue hm =>
      cases hl
      exact ⟨_, hm⟩
    | _ => cases hl
  obtain ⟨u, hu⟩ := hmarked
  rw [mem_marksOf, ← h.instrs]
  exact List.mem_map.mpr ⟨_, hu, rfl⟩

theorem checkName_error {name : String} {e : AssembleError} (h : checkName name = .error e) :
    e.isCapacity = true ∧ wordLimit < name.utf8ByteSize := by
  unfold checkName at h
  split at h
  · next hlong =>
    cases h
    exact ⟨rfl, hlong⟩
  · cases h

namespace Program.Typed

variable {p : Program}

/-- A block of a typed program is encoded unless it is too large. -/
theorem encodeBlock_error (h : p.Typed) {b : Block} (hb : b ∈ p.blocks) {e : AssembleError}
    (he : encodeBlock p.directory b = .error e) : e.isCapacity = true ∧ ¬ b.Fits := by
  unfold encodeBlock at he
  cases hname : checkName b.name with
  | error e' =>
    rw [hname] at he
    cases he
    obtain ⟨hcap, hlong⟩ := checkName_error hname
    exact ⟨hcap, fun hfits => Nat.not_lt_of_le hfits.1 hlong⟩
  | ok u =>
    rw [hname] at he
    cases hbody : encodeBody p.directory b with
    | ok s =>
      rw [hbody] at he
      cases he
    | error cause =>
      rw [hbody] at he
      cases he
      obtain ⟨ann, hann⟩ := h.blocks b hb
      rcases encodeBody_error hbody with hcap | hmarks | ⟨callee, hcall, hresolve⟩ |
        ⟨o, l, ho, hl, hnot⟩
      · exact hcap
      · exact absurd hann.distinct hmarks
      · -- the callee is a block of the program, so it is found
        obtain ⟨b', hb', hn, hsig⟩ := h.callees b hb callee hcall
        obtain ⟨i, hi⟩ := Array.getElem?_of_mem hb'
        have hfound := Program.directory_of_distinct h.names hi
        rw [hn, hsig] at hfound
        rw [Directory.resolve_ok.mpr ⟨i, hfound, rfl⟩] at hresolve
        cases hresolve
      · exact absurd (hann.target_marked ho hl) hnot

/-- A typed program is encoded unless it is too large for the format. -/
theorem encode_error (h : p.Typed) {e : AssembleError} (he : p.encode = .error e) :
    e.isCapacity = true ∧ ¬ p.Fits := by
  unfold Program.encode at he
  simp only [except_throw_bind] at he
  split at he
  · next hmany =>
    cases he
    exact ⟨rfl, fun hfits => Nat.not_lt_of_le hfits.2.1 hmany⟩
  · cases hname : checkName p.name with
    | error e' =>
      rw [hname] at he
      cases he
      obtain ⟨hcap, hlong⟩ := checkName_error hname
      exact ⟨hcap, fun hfits => Nat.not_lt_of_le hfits.1 hlong⟩
    | ok u =>
      rw [hname] at he
      cases hblocks : p.blocks.mapM (encodeBlock p.directory) with
      | ok blocks =>
        rw [hblocks] at he
        cases he
      | error e' =>
        rw [hblocks] at he
        cases he
        have hlist : p.blocks.toList.mapM (encodeBlock p.directory) = .error e := by
          rw [← Array.toList_mapM, hblocks]
          rfl
        obtain ⟨b, hb, hbe⟩ := except_mapM_error hlist
        obtain ⟨hcap, hlarge⟩ := h.encodeBlock_error (Array.mem_toList_iff.mp hb) hbe
        exact ⟨hcap, fun hfits => hlarge (hfits.2.2 b (Array.mem_toList_iff.mp hb))⟩

theorem encode_of_fits (h : p.Typed) (hfits : p.Fits) : ∃ a, p.encode = .ok a := by
  cases ha : p.encode with
  | error e => exact absurd hfits (h.encode_error ha).2
  | ok a => exact ⟨a, rfl⟩

/-- A typed program verifies, so it makes no difference whether this is checked: its bytes are those
of its encoding, if it fits. -/
theorem assemble_eq (h : p.Typed) (verify : Bool) :
    p.assemble verify = p.encode.map Artifact.toBytes := by
  cases ha : p.encode with
  | error e => rw [Program.assemble, except_bind_error ha, Except.map]
  | ok a =>
    cases verify <;>
      simp [Program.assemble, ha, p.verify_encode h ha, bind, Except.bind, Except.mapError, pure,
        Except.pure, Except.map]

end Program.Typed

end TypedStack.Assembly
