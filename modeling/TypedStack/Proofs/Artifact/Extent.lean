import TypedStack.Proofs.Artifact.RoundTrip
/-!
# The bytes that belong to an artifact

`RoundTrip` starts from an artifact and reads what was written. Here the bytes come first, and
nothing is known of who wrote them. A reading step that succeeds takes a front part of the bytes,
and what it gives determines that part: the step would read it the same way before any other rest,
and runs into the end of the bytes wherever the part is cut (`Delimits`). So an artifact is written
back byte for byte, apart from truth values, which may be spelled in more than one way
(`written_back_canonically`), and no bytes of an artifact go on to be those of another
(`cut_or_extended_refused`).

The lemmas `takes_…` correspond to the `reads_…` of `RoundTrip`, one for each function of the
reader, and their proofs follow its lines as well. What each says is in terms of a marked form of
the bytes, which remembers for every byte whether it belongs to a truth value.
-/

set_option autoImplicit false

namespace TypedStack

/-! ## Numbers, texts and tags from their bytes

The way back: what was read from some bytes is written as these bytes. -/

/-- A number is written as the bytes that it was read from. -/
theorem littleEndian_ofLittleEndian (bytes : List UInt8) :
    littleEndian bytes.length (ofLittleEndian bytes) = bytes := by
  induction bytes with
  | nil => rfl
  | cons byte rest ih =>
    have hbyte := byte.toNat_lt
    have hdiv : (byte.toNat + 256 * ofLittleEndian rest) / 256 = ofLittleEndian rest := by omega
    have hlow : UInt8.ofNat (byte.toNat + 256 * ofLittleEndian rest) = byte := by
      apply UInt8.toNat_inj.mp
      rw [UInt8.toNat_ofNat']
      omega
    rw [List.length_cons, ofLittleEndian, littleEndian, hdiv, hlow, ih]

/-- A text is written as the bytes that it was decoded from. There is one way only to encode it. -/
theorem textBytes_of_textOfBytes? {bytes : List UInt8} {s : String}
    (h : textOfBytes? bytes = some s) : textBytes s = bytes := by
  unfold textOfBytes? String.fromUTF8? at h
  split at h
  · cases h
    rfl
  · cases h

/-- A type is written as the tag that it was read from. -/
theorem ValueType.tag_of_ofTag? {tag : UInt8} {t : ValueType} (h : ofTag? tag = some t) :
    t.tag = tag := by
  unfold ofTag? at h
  repeat' split at h
  all_goals cases h
  all_goals subst tag; rfl

namespace Artifact

variable {α β : Type}

/-! ## The payloads of truth values

Of all fields only the payload of a truth value has more than one spelling. Each byte that is
written is marked here with whether it is one. -/

/-- Bytes that are no payloads of truth values. -/
def plain (bytes : List UInt8) : List (UInt8 × Bool) := bytes.map fun b => (b, false)

/-- A constant. Of a truth value the tag is plain and the payload is not. -/
def constantForm : Constant → List (UInt8 × Bool)
  | .value (.bool b) => [(4, false), (if b then 1 else 0, true)]
  | c => plain (constantField c)

/-- A segment, grouped as it is read: a count goes with what it counts. -/
def segmentForm (s : Segment) : List (UInt8 × Bool) :=
  (plain (littleEndian 2 s.pool.size) ++ s.pool.toList.flatMap constantForm) ++
    (plain (littleEndian 4 s.code.size) ++ (plain s.code.toList ++
      (plain (littleEndian 4 s.lines.size) ++
        s.lines.toList.flatMap fun mark => plain (lineField mark))))

/-- A block, grouped as it is read. -/
def blockForm (b : Block) : List (UInt8 × Bool) :=
  plain (textField b.name) ++
    ((plain (littleEndian 1 b.signature.params.length) ++
        b.signature.params.flatMap fun t => plain [t.tag]) ++
      (plain [resultField b.signature.result] ++
        ((plain (littleEndian 2 b.slots.size) ++ b.slots.toList.flatMap fun t => plain [t.tag]) ++
          segmentForm b.segment)))

/-- What stands behind the magic bytes. -/
def contentForm (a : Artifact) : List (UInt8 × Bool) :=
  plain (littleEndian 2 version.toNat) ++ (plain (textField a.name) ++
    (plain (littleEndian 2 a.blocks.size) ++ a.blocks.toList.flatMap blockForm))

/-- The bytes of an artifact, each with whether it is the payload of a truth value. -/
def form (a : Artifact) : List (UInt8 × Bool) := plain magic ++ contentForm a

/-- Whether the byte at a position is the payload of a truth value. -/
def isTruthByte (a : Artifact) (i : Nat) : Bool := (a.form[i]?.map Prod.snd).getD false

@[simp] theorem map_plain (bytes : List UInt8) : (plain bytes).map Prod.fst = bytes := by
  simp [plain, Function.comp_def]

theorem map_flatMap_form {form : α → List (UInt8 × Bool)} {field : α → List UInt8}
    (h : ∀ x, (form x).map Prod.fst = field x) (xs : List α) :
    (xs.flatMap form).map Prod.fst = xs.flatMap field := by
  rw [List.map_flatMap]
  exact congrArg xs.flatMap (funext h)

theorem map_constantForm (c : Constant) : (constantForm c).map Prod.fst = constantField c := by
  rcases c with (_ | _ | _ | _ | _) | _
  case value.bool => rfl
  all_goals exact map_plain _

theorem map_segmentForm (s : Segment) : (segmentForm s).map Prod.fst = segmentField s := by
  simp only [segmentForm, segmentField, List.map_append, map_plain,
    map_flatMap_form map_constantForm, map_flatMap_form fun mark => map_plain (lineField mark),
    List.append_assoc]

theorem map_blockForm (b : Block) : (blockForm b).map Prod.fst = blockField b := by
  simp only [blockForm, blockField, List.map_append, map_plain, map_segmentForm,
    map_flatMap_form fun t : ValueType => map_plain [t.tag], List.append_assoc,
    ← List.map_eq_flatMap]

theorem map_form (a : Artifact) : a.form.map Prod.fst = a.toBytes := by
  simp only [form, contentForm, toBytes, List.map_append, map_plain, map_flatMap_form map_blockForm,
    List.append_assoc]

/-- The byte that is written where a byte was read. Of a truth value it is one of two. -/
def canonical (truth : Bool) (b : UInt8) : UInt8 := if truth ∧ b ≠ 0 ∧ b ≠ 1 then 1 else b

/-- A byte is written as it was read, unless it is another spelling of true. -/
theorem canonical_eq_self {truth : Bool} {b : UInt8} :
    canonical truth b = b ↔ (truth → b = 0 ∨ b = 1) := by
  unfold canonical
  by_cases h : truth ∧ b ≠ 0 ∧ b ≠ 1
  · rw [if_pos h]
    constructor
    · intro hone
      exact absurd hone.symm h.2.2
    · intro hself
      rcases hself h.1 with hzero | hone
      · exact absurd hzero h.2.1
      · exact hone.symm
  · rw [if_neg h]
    refine ⟨fun _ htruth => ?_, fun _ => rfl⟩
    by_contra hother
    exact h ⟨htruth, not_or.mp hother⟩

/-- The byte can stand where the marked one is written. -/
def Admits (w : UInt8 × Bool) (b : UInt8) : Prop := w.1 = canonical w.2 b

/-- The bytes can stand where the marked ones are written. -/
abbrev Spells (marked : List (UInt8 × Bool)) (bytes : List UInt8) : Prop :=
  List.Forall₂ Admits marked bytes

/-- Bytes that are no payloads are spelled in one way. -/
theorem spells_plain (bytes : List UInt8) : Spells (plain bytes) bytes := by
  induction bytes with
  | nil => exact .nil
  | cons b rest ih => exact .cons rfl ih

theorem Spells.append {marked marked' : List (UInt8 × Bool)} {bytes more : List UInt8}
    (h : Spells marked bytes) (h' : Spells marked' more) :
    Spells (marked ++ marked') (bytes ++ more) :=
  List.rel_append h h'

/-- A spelling goes byte by byte, so it can be asked what is written at a position. -/
theorem Spells.getElem? {marked : List (UInt8 × Bool)} {bytes : List UInt8}
    (h : Spells marked bytes) {i : Nat} {b : UInt8} (hb : bytes[i]? = some b) :
    ∃ truth, marked[i]? = some (canonical truth b, truth) := by
  induction h generalizing i with
  | nil => cases hb
  | @cons w b' marked bytes hw _ ih =>
    cases i with
    | zero =>
      cases hb
      exact ⟨w.2, congrArg some (Prod.ext hw rfl)⟩
    | succ i => exact ih hb

/-! ## What a step takes

A step that succeeds is known by what it takes off the front of the bytes. Nothing else about the
bytes matters, and nothing less would do. -/

/-- The step reads exactly these bytes as the value, whatever stands behind them, and of no less it
finds the end. The end is reported at the cut or before it, so a step never looks at bytes behind
those that it takes. -/
structure Delimits (item : Reading α) (bytes : List UInt8) (x : α) : Prop where
  reads : Reads item bytes x
  cut : ∀ n < bytes.length, ∀ position, ∃ p ≤ position + n,
    item ⟨bytes.take n, position⟩ = .error (.unexpectedEnd p)

/-- Two steps in a row. A cut either hits what the first step takes, or leaves it alone and hits
what the second takes. -/
theorem Delimits.bind {item : Reading α} {f : α → Reading β} {bytes more : List UInt8} {x : α}
    {y : β} (h : Delimits item bytes x) (hf : Delimits (f x) more y) :
    Delimits (item >>= f) (bytes ++ more) y := by
  refine ⟨h.reads.bind hf.reads, ?_⟩
  intro n hn position
  by_cases hcut : n < bytes.length
  · obtain ⟨p, hp, herror⟩ := h.cut n hcut position
    rw [List.take_append_of_le_length (Nat.le_of_lt hcut)]
    exact ⟨p, hp, state_bind_fails.mpr (.inl herror)⟩
  · -- the first step is not touched by the cut
    have hle : bytes.length ≤ n := Nat.le_of_not_lt hcut
    rw [List.length_append] at hn
    obtain ⟨p, hp, herror⟩ :=
      hf.cut (n - bytes.length) (by omega) (position + bytes.length)
    refine ⟨p, by omega, ?_⟩
    rw [List.take_append, List.take_of_length_le hle]
    exact state_bind_fails.mpr (.inr ⟨x, _, h.reads _ position, herror⟩)

/-- Whatever the step gives, it has taken bytes that it delimits and that are good for it. What is
good is a relation between the value and its bytes, so that the bytes of a step with several parts
can be put together from theirs. -/
def Takes (item : Reading α) (good : α → List UInt8 → Prop) : Prop :=
  ∀ c x c', item c = .ok (x, c') →
    ∃ bytes, c.rest = bytes ++ c'.rest ∧ Delimits item bytes x ∧ good x bytes

namespace Takes

theorem pure {good : α → List UInt8 → Prop} {x : α} (h : good x []) :
    Takes (Pure.pure x) good := by
  intro c y c' hy
  obtain ⟨rfl, rfl⟩ := state_pure_ok.mp hy
  refine ⟨[], rfl, ⟨.pure x, ?_⟩, h⟩
  intro n hn
  cases hn

theorem throw {good : α → List UInt8 → Prop} {e : LoadError} :
    Takes (MonadExcept.throw e) good :=
  fun _ _ _ hx => (state_throw_ok.mp hx).elim

/-- Two steps in a row take their bytes in a row. -/
theorem bind {item : Reading α} {f : α → Reading β} {first : α → List UInt8 → Prop}
    {good : β → List UInt8 → Prop} (h : Takes item first)
    (hf : ∀ x bytes, first x bytes → Takes (f x) fun y more => good y (bytes ++ more)) :
    Takes (item >>= f) good := by
  intro c y c' hy
  obtain ⟨x, c₁, hx, hrest⟩ := state_bind_ok.mp hy
  obtain ⟨bytes, hbytes, hdelimits, hfirst⟩ := h c x c₁ hx
  obtain ⟨more, hmore, hdelimits', hgood⟩ := hf x bytes hfirst c₁ y c' hrest
  refine ⟨bytes ++ more, ?_, hdelimits.bind hdelimits', hgood⟩
  rw [hbytes, hmore, List.append_assoc]

theorem mono {item : Reading α} {good good' : α → List UInt8 → Prop} (h : Takes item good)
    (hgood : ∀ x bytes, good x bytes → good' x bytes) : Takes item good' := by
  intro c x c' hx
  obtain ⟨bytes, hbytes, hdelimits, hx'⟩ := h c x c' hx
  exact ⟨bytes, hbytes, hdelimits, hgood x bytes hx'⟩

theorem bindPure {item : Reading α} {f : α → β} {first : α → List UInt8 → Prop}
    {good : β → List UInt8 → Prop} (h : Takes item first)
    (hgood : ∀ x bytes, first x bytes → good (f x) bytes) :
    Takes (item >>= fun x => Pure.pure (f x)) good := by
  refine h.bind fun x bytes hx => .pure ?_
  rw [List.append_nil]
  exact hgood x bytes hx

/-- What is done with a value after it was read does not matter for the bytes. -/
theorem map {item : Reading α} {first : α → List UInt8 → Prop} {good : β → List UInt8 → Prop}
    (h : Takes item first) (f : α → β) (hgood : ∀ x bytes, first x bytes → good (f x) bytes) :
    Takes (f <$> item) good := by
  rw [map_eq_pure_bind]
  exact h.bindPure hgood

end Takes

/-- So many bytes are taken as they are, and of fewer the end is found. -/
theorem takes_take (n : Nat) : Takes (take n) fun xs bytes => bytes = xs ∧ bytes.length = n := by
  intro c xs c' h
  simp only [take] at h
  split at h
  · cases h
  · next hlen =>
    cases h
    simp only [List.splitAt_eq] at hlen ⊢
    have hlength : (c.rest.take n).length = n :=
      Nat.le_antisymm (List.length_take_le n c.rest) (Nat.le_of_not_lt hlen)
    have hreads := reads_take (c.rest.take n)
    rw [hlength] at hreads
    refine ⟨c.rest.take n, (List.take_append_drop n c.rest).symm, ⟨hreads, ?_⟩, rfl, hlength⟩
    intro k hk position
    rw [hlength] at hk
    refine ⟨position, Nat.le_add_right _ _, ?_⟩
    have hshort : ((c.rest.take n).take k).length < n :=
      Nat.lt_of_le_of_lt (List.length_take_le _ _) hk
    simp only [take, List.splitAt_eq]
    exact if_pos (Nat.lt_of_le_of_lt (List.length_take_le' _ _) hshort)

theorem takes_number (width : Nat) :
    Takes (number width) fun n bytes =>
      bytes = littleEndian width n ∧ n < Nat.pow 256 width := by
  refine (takes_take width).map ofLittleEndian ?_
  intro xs bytes h
  obtain ⟨rfl, rfl⟩ := h
  exact ⟨(littleEndian_ofLittleEndian bytes).symm, ofLittleEndian_lt bytes⟩

theorem takes_byte : Takes byte fun b bytes => bytes = [b] :=
  (takes_number 1).map UInt8.ofNat fun _ _ h => h.1

theorem takes_text : Takes text fun s bytes => bytes = textField s := by
  refine (takes_number 2).bind fun n head hhead => ?_
  refine (takes_take n).bind fun xs bytes hbytes => ?_
  obtain ⟨rfl, hlength⟩ := hbytes
  split
  · next s hs =>
    refine .pure ?_
    rw [List.append_nil, textField, textBytes_of_textOfBytes? hs, utf8ByteSize_of_textOfBytes? hs,
      hlength, hhead.1]
  · exact .throw

theorem takes_type : Takes type fun t bytes => Spells (plain [t.tag]) bytes := by
  refine takes_byte.bind fun tag bytes hbytes => ?_
  split
  · next t ht =>
    refine .pure ?_
    rw [List.append_nil, ValueType.tag_of_ofTag? ht, hbytes]
    exact spells_plain _
  · exact .throw

/-- A result takes its tag, or a zero where there is none. -/
theorem takes_resultType : Takes resultType fun r bytes => bytes = [resultField r] := by
  refine takes_byte.bind fun tag bytes hbytes => ?_
  split
  · next hzero =>
    refine .pure ?_
    rw [List.append_nil, hbytes, hzero]
    rfl
  · split
    · next t ht =>
      refine .pure ?_
      rw [List.append_nil, hbytes, resultField, ValueType.tag_of_ofTag? ht]
    · exact .throw

/-- Any byte but zero stands for true, so this field alone need not be spelled as it is written. For
each tag the payload is read and written back; a number that was read fits its field, so that
nothing is lost when it is put into a value. -/
theorem takes_constant : Takes constant fun c bytes => Spells (constantForm c) bytes := by
  refine takes_byte.bind fun tag head hhead => ?_
  subst hhead
  split
  · next h =>
    subst h
    refine (takes_number 8).bindPure fun n bytes hbytes => ?_
    obtain ⟨rfl, hlt⟩ := hbytes
    have hback : (UInt64.ofNat n).toInt64.toUInt64.toNat = n := by
      rw [UInt64.toUInt64_toInt64]
      exact UInt64.toNat_ofNat_of_lt' hlt
    show Spells (plain (1 :: littleEndian 8 (UInt64.ofNat n).toInt64.toUInt64.toNat)) _
    rw [hback]
    exact spells_plain (1 :: littleEndian 8 n)
  split
  · next h =>
    subst h
    refine (takes_number 2).bindPure fun n bytes hbytes => ?_
    obtain ⟨rfl, hlt⟩ := hbytes
    show Spells (plain (2 :: littleEndian 2 (UInt16.ofNat n).toNat)) _
    rw [UInt16.toNat_ofNat_of_lt' hlt]
    exact spells_plain (2 :: littleEndian 2 n)
  split
  · next h =>
    subst h
    refine (takes_number 4).bindPure fun n bytes hbytes => ?_
    obtain ⟨rfl, hlt⟩ := hbytes
    show Spells (plain (3 :: littleEndian 4 (UInt32.ofNat n).toNat)) _
    rw [UInt32.toNat_ofNat_of_lt' hlt]
    exact spells_plain (3 :: littleEndian 4 n)
  split
  · next h =>
    subst h
    refine takes_byte.bindPure fun b bytes hbytes => ?_
    subst hbytes
    -- Zero is false, one is true, and any other byte is true as well and is written back as one.
    have hpayload : Admits (if b != 0 then 1 else 0, true) b := by
      by_cases hzero : b = 0
      · subst hzero
        rfl
      · by_cases hone : b = 1
        · subst hone
          rfl
        · simp [Admits, canonical, hzero, hone]
    exact .cons rfl (.cons hpayload .nil)
  split
  · next h =>
    subst h
    refine (takes_number 8).bindPure fun n bytes hbytes => ?_
    obtain ⟨rfl, hlt⟩ := hbytes
    show Spells (plain (5 :: littleEndian 8 (UInt64.ofNat n).toNat)) _
    rw [UInt64.toNat_ofNat_of_lt' hlt]
    exact spells_plain (5 :: littleEndian 8 n)
  split
  · next h =>
    subst h
    refine takes_text.bindPure fun s bytes hbytes => ?_
    subst hbytes
    exact spells_plain (6 :: textField s)
  · exact .throw

/-- An entry of the line table takes the bytes that it is written as. -/
theorem takes_lineMark :
    Takes lineMark fun mark bytes => Spells (plain (lineField mark)) bytes := by
  refine (takes_number 4).bind fun offset head hhead => ?_
  obtain ⟨rfl, hoffset⟩ := hhead
  refine (takes_number 4).bindPure fun line bytes hbytes => ?_
  obtain ⟨rfl, hline⟩ := hbytes
  rw [lineField, UInt32.toNat_ofNat_of_lt' hoffset, UInt32.toNat_ofNat_of_lt' hline]
  exact spells_plain _

/-- Reading items as a chain of steps, which is not how it is defined. -/
theorem items_succ (item : Reading α) (n : Nat) (done : Array α) :
    items item (n + 1) done =
      (item >>= fun x => items item n (done.push x) : Reading (Array α)) := by
  funext c
  show items item (n + 1) done c = (item c >>= fun p => items item n (done.push p.1) p.2)
  simp only [items]
  cases item c <;> rfl

/-- Items take their bytes in a row. Those that were read before take none of them. -/
theorem takes_items {item : Reading α} {form : α → List (UInt8 × Bool)}
    (h : Takes item fun x bytes => Spells (form x) bytes) (n : Nat) (done : Array α) :
    Takes (items item n done) fun xs bytes =>
      ∃ new : List α, xs = done ++ new.toArray ∧ new.length = n ∧
        Spells (new.flatMap form) bytes := by
  induction n generalizing done with
  | zero => exact .pure ⟨[], Array.append_empty.symm, rfl, .nil⟩
  | succ n ih =>
    rw [items_succ]
    refine h.bind fun x bytes hx => (ih (done.push x)).mono ?_
    intro xs more hmore
    obtain ⟨new, rfl, hlength, hnew⟩ := hmore
    refine ⟨x :: new, ?_, congrArg Nat.succ hlength, hx.append hnew⟩
    simp

theorem takes_counted {width : Nat} {item : Reading α} {form : α → List (UInt8 × Bool)}
    (h : Takes item fun x bytes => Spells (form x) bytes) :
    Takes (counted width item) fun xs bytes =>
      Spells (plain (littleEndian width xs.size) ++ xs.toList.flatMap form) bytes := by
  refine (takes_number width).bind fun n head hhead => (takes_items h n #[]).mono ?_
  intro xs bytes hbytes
  obtain ⟨new, rfl, rfl, hnew⟩ := hbytes
  rw [Array.empty_append, List.size_toArray, hhead.1]
  exact (spells_plain _).append hnew

theorem takes_segment : Takes segment fun s bytes => Spells (segmentForm s) bytes := by
  refine (takes_counted takes_constant).bind fun pool front hpool => ?_
  refine (takes_number 4).bind fun n head hhead => ?_
  refine (takes_take n).bind fun code bytes hcode => ?_
  obtain ⟨rfl, rfl⟩ := hcode
  refine (takes_counted takes_lineMark).bindPure fun lines back hlines => ?_
  rw [hhead.1]
  exact hpool.append ((spells_plain _).append ((spells_plain _).append hlines))

theorem takes_block : Takes block fun b bytes => Spells (blockForm b) bytes := by
  refine takes_text.bind fun name front hname => ?_
  refine (takes_counted takes_type).bind fun params head hparams => ?_
  refine takes_resultType.bind fun result mid hresult => ?_
  refine (takes_counted takes_type).bind fun slots bytes hslots => ?_
  refine takes_segment.bindPure fun segment back hsegment => ?_
  rw [hname, hresult]
  rw [← Array.length_toList] at hparams
  exact (spells_plain _).append (hparams.append ((spells_plain _).append (hslots.append hsegment)))

/-- The version takes its own two bytes, since no other version is accepted. -/
theorem takes_expectVersion :
    Takes expectVersion fun _ bytes => bytes = littleEndian 2 version.toNat := by
  refine (takes_number 2).bind fun n bytes hbytes => ?_
  dsimp only
  split
  · next hversion =>
    refine .pure ?_
    rw [List.append_nil, hbytes.1, ← hversion, UInt16.toNat_ofNat_of_lt' hbytes.2]
  · exact .throw

/-! ## Whole artifacts

The magic bytes are apart from the rest, because too few bytes for them are reported as wrong ones
and not as an end. -/

/-- What is read behind the magic bytes. -/
def content : Reading Artifact := do
  expectVersion
  let name ← text
  let blocks ← counted 2 block
  pure { name, blocks }

theorem whole_eq : whole = (do
    expectMagic
    let a ← content
    expectEnd
    pure a) := by
  simp only [whole, content, bind_assoc, pure_bind]

theorem takes_content : Takes content fun a bytes => Spells (contentForm a) bytes := by
  refine takes_expectVersion.bind fun _ front hfront => ?_
  refine takes_text.bind fun name head hname => ?_
  refine (takes_counted takes_block).bindPure fun blocks bytes hblocks => ?_
  rw [hfront, hname]
  exact (spells_plain _).append ((spells_plain _).append hblocks)

/-- An artifact is read from the magic bytes and its content, and from nothing else. -/
theorem ofBytes_ok {bytes : List UInt8} {a : Artifact} (h : ofBytes bytes = .ok a) :
    ∃ body, bytes = magic ++ body ∧ Delimits content body a ∧ Spells (contentForm a) body := by
  obtain ⟨⟨a', c⟩, hwhole, rfl⟩ := except_map_ok.mp h
  rw [whole_eq] at hwhole
  obtain ⟨_, c₁, hmagic, hwhole⟩ := state_bind_ok.mp hwhole
  obtain ⟨x, c₂, hcontent, hwhole⟩ := state_bind_ok.mp hwhole
  obtain ⟨_, c₃, hend, hpure⟩ := state_bind_ok.mp hwhole
  obtain ⟨rfl, rfl⟩ := state_pure_ok.mp hpure
  obtain ⟨body, hbody, hdelimits, hspells⟩ := takes_content c₁ x c₂ hcontent
  -- What stands before the content is compared with the magic bytes, what stands behind it has to
  -- be nothing.
  have hfront : bytes = magic ++ c₁.rest := by
    unfold expectMagic at hmagic
    split at hmagic
    · next front c₄ htake =>
      split at hmagic
      · next heq =>
        cases hmagic
        obtain ⟨taken, htaken, -, rfl, -⟩ := takes_take 4 _ _ _ htake
        rw [← heq]
        exact htaken
      · cases hmagic
    · cases hmagic
  have hrest : c₂.rest = [] := by
    unfold expectEnd at hend
    split at hend
    · next hempty => exact List.isEmpty_iff.mp hempty
    · cases hend
  rw [hrest, List.append_nil] at hbody
  rw [hbody] at hfront
  exact ⟨body, hfront, hdelimits, hspells⟩

/-- What is written at a position depends on the byte that was read there, and on nothing else. -/
theorem toBytes_getElem? {bytes : List UInt8} {a : Artifact} (h : Spells a.form bytes) {i : Nat}
    {b : UInt8} (hb : bytes[i]? = some b) :
    a.toBytes[i]? = some (canonical (a.isTruthByte i) b) := by
  obtain ⟨truth, hform⟩ := h.getElem? hb
  have htruth : a.isTruthByte i = truth := by
    rw [isTruthByte, hform]
    rfl
  rw [htruth, ← map_form, List.getElem?_map, hform]
  rfl

/-- **Bytes that are read are written back.** An artifact that was read is written back at the same
length and byte for byte, but for the payloads of truth values: these become one wherever they were
neither zero nor one. -/
theorem written_back_canonically {bytes : List UInt8} {a : Artifact} (h : ofBytes bytes = .ok a) :
    a.toBytes.length = bytes.length ∧
    (∀ i b, bytes[i]? = some b →
      a.toBytes[i]? = some (if a.isTruthByte i ∧ b ≠ 0 ∧ b ≠ 1 then 1 else b)) ∧
    ofBytes a.toBytes = .ok a ∧
    (a.toBytes = bytes ↔ ∀ i b, a.isTruthByte i → bytes[i]? = some b → b = 0 ∨ b = 1) := by
  have hspells : Spells a.form bytes := by
    obtain ⟨body, rfl, -, hbody⟩ := ofBytes_ok h
    exact (spells_plain magic).append hbody
  have hlength : a.toBytes.length = bytes.length := by
    rw [← map_form, List.length_map]
    exact hspells.length_eq
  refine ⟨hlength, fun i b hb => toBytes_getElem? hspells hb,
    ofBytes_of_fits (fits_of_ofBytes h), ?_, ?_⟩
  · intro hsame i b htruth hb
    have hwritten := toBytes_getElem? hspells hb
    rw [hsame, hb] at hwritten
    exact canonical_eq_self.mp (Option.some.inj hwritten).symm htruth
  · intro htruths
    apply List.ext_getElem?
    intro i
    cases hb : bytes[i]? with
    | none =>
      rw [List.getElem?_eq_none_iff] at hb ⊢
      omega
    | some b =>
      rw [toBytes_getElem? hspells hb]
      exact congrArg some (canonical_eq_self.mpr fun htruth => htruths i b htruth hb)

/-- A block that gives back true, which is spelled as seven. -/
def sevenBytes : List UInt8 :=
  magic ++ [1, 0, 1, 0, 0x4D, 1, 0] ++
    [1, 0, 0x66, 0, 4, 0, 0, 1, 0, 4, 7] ++
    [5, 0, 0, 0, 0, 0, 0, 0x52, 4] ++ [1, 0, 0, 0, 0, 0, 0, 0, 3, 0, 0, 0]

/-- The artifact that is read from these bytes, with a line table of one entry. -/
def sevenArtifact : Artifact where
  name := "M"
  blocks := #[{
    name := "f", signature := { result := some .bool }, slots := #[],
    segment := {
      code := #[0, 0, 0, 0x52, 4], pool := #[.value (.bool true)], lines := #[⟨0, 3⟩] } }]

theorem ofBytes_seven : ofBytes sevenBytes = .ok sevenArtifact := by decide +kernel

/-- The seven is at position 21. It is written back as one, and so the bytes are not the same. -/
theorem written_back_canonically_seven :
    ofBytes sevenBytes = .ok sevenArtifact ∧ sevenArtifact.toBytes.length = sevenBytes.length ∧
      sevenBytes[21]? = some 7 ∧ sevenArtifact.toBytes[21]? = some 1 ∧
      ofBytes sevenArtifact.toBytes = .ok sevenArtifact ∧ sevenArtifact.toBytes ≠ sevenBytes := by
  obtain ⟨hlength, hbytes, hback, hsame⟩ := written_back_canonically ofBytes_seven
  have htruth : sevenArtifact.isTruthByte 21 = true := by decide +kernel
  have hread : sevenBytes[21]? = some 7 := rfl
  refine ⟨ofBytes_seven, hlength, hread, hbytes 21 7 hread |>.trans ?_, hback, ?_⟩
  · rw [htruth]
    rfl
  · intro heq
    have hcanonical := hsame.mp heq 21 7 htruth hread
    exact absurd hcanonical (by decide)

/-! ## Cut and extended bytes

An artifact says everywhere how much is still to come, so that its bytes end where it ends. -/

theorem expectMagic_append (body : List UInt8) :
    expectMagic ⟨magic ++ body, 0⟩ = .ok ((), ⟨body, 4⟩) :=
  reads_expectMagic body 0

/-- Behind the magic bytes it is for the content to report what is missing. -/
theorem ofBytes_error {body : List UInt8} {e : LoadError} (h : content ⟨body, 4⟩ = .error e) :
    ofBytes (magic ++ body) = .error e := by
  have hwhole : whole ⟨magic ++ body, 0⟩ = .error e := by
    rw [whole_eq]
    refine state_bind_fails.mpr (.inr ⟨(), _, expectMagic_append body, ?_⟩)
    exact state_bind_fails.mpr (.inl h)
  rw [ofBytes, hwhole]
  rfl

/-- Behind the content nothing may follow, and what follows is counted. -/
theorem ofBytes_trailing {body more : List UInt8} {a : Artifact} (h : Delimits content body a)
    (hmore : more ≠ []) :
    ofBytes (magic ++ (body ++ more)) = .error (.trailingBytes more.length) := by
  have hend : expectEnd ⟨more, 4 + body.length⟩ = .error (.trailingBytes more.length) := by
    unfold expectEnd
    rw [if_neg]
    rw [List.isEmpty_iff]
    exact hmore
  have hwhole : whole ⟨magic ++ (body ++ more), 0⟩ = .error (.trailingBytes more.length) := by
    rw [whole_eq]
    refine state_bind_fails.mpr (.inr ⟨(), _, expectMagic_append _, ?_⟩)
    refine state_bind_fails.mpr (.inr ⟨a, _, h.reads more 4, ?_⟩)
    exact state_bind_fails.mpr (.inl hend)
  rw [ofBytes, hwhole]
  rfl

theorem ofBytes_short {bytes : List UInt8} (h : bytes.length < 4) :
    ofBytes bytes = .error .badMagic := by
  have htake : take 4 ⟨bytes, 0⟩ = .error (.unexpectedEnd 0) := by
    simp only [take, List.splitAt_eq]
    exact if_pos (Nat.lt_of_le_of_lt (List.length_take_le' 4 bytes) h)
  have hmagic : expectMagic ⟨bytes, 0⟩ = .error .badMagic := by
    unfold expectMagic
    rw [htake]
  have hwhole : whole ⟨bytes, 0⟩ = .error .badMagic := by
    rw [whole_eq]
    exact state_bind_fails.mpr (.inl hmagic)
  rw [ofBytes, hwhole]
  rfl

/-- **An artifact ends where its bytes end.** Whatever is missing from the end of an artifact's
bytes, their end is reported before anything else could be wrong, and whatever is too much is
counted. So no bytes of an artifact begin those of another. -/
theorem cut_or_extended_refused {bytes : List UInt8} {a : Artifact} (h : ofBytes bytes = .ok a) :
    (∀ n < bytes.length,
      if n < 4 then ofBytes (bytes.take n) = .error .badMagic
      else ∃ p ≤ n, ofBytes (bytes.take n) = .error (.unexpectedEnd p)) ∧
    (∀ more ≠ [], ofBytes (bytes ++ more) = .error (.trailingBytes more.length)) ∧
    ∀ bytes' a', ofBytes bytes' = .ok a' → bytes <+: bytes' → bytes = bytes' := by
  obtain ⟨body, rfl, hdelimits, -⟩ := ofBytes_ok h
  have htrailing : ∀ more ≠ [],
      ofBytes (magic ++ body ++ more) = .error (.trailingBytes more.length) := by
    intro more hmore
    rw [List.append_assoc]
    exact ofBytes_trailing hdelimits hmore
  refine ⟨?_, htrailing, ?_⟩
  · intro n hn
    have hmagic : magic.length = 4 := rfl
    split
    · next hshort =>
      exact ofBytes_short (Nat.lt_of_le_of_lt (List.length_take_le n _) hshort)
    · next hlong =>
      rw [List.length_append, hmagic] at hn
      obtain ⟨p, hp, herror⟩ := hdelimits.cut (n - 4) (by omega) 4
      refine ⟨p, by omega, ?_⟩
      rw [List.take_append, List.take_of_length_le (by omega), hmagic]
      exact ofBytes_error herror
  · intro bytes' a' h' hprefix
    obtain ⟨more, rfl⟩ := hprefix
    by_cases hmore : more = []
    · rw [hmore, List.append_nil]
    · rw [htrailing more hmore] at h'
      cases h'

theorem cut_or_extended_refused_seven :
    ofBytes sevenBytes = .ok sevenArtifact ∧ ofBytes (sevenBytes.take 3) = .error .badMagic ∧
      (∃ p ≤ 30, ofBytes (sevenBytes.take 30) = .error (.unexpectedEnd p)) ∧
      ofBytes (sevenBytes ++ [0, 0]) = .error (.trailingBytes 2) := by
  obtain ⟨hcut, hextended, -⟩ := cut_or_extended_refused ofBytes_seven
  exact ⟨ofBytes_seven, hcut 3 (by decide), hcut 30 (by decide), hextended [0, 0] (by decide)⟩

end Artifact

end TypedStack
