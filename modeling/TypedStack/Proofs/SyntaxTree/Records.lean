import TypedStack.Proofs.Json.Numbers
import TypedStack.SyntaxTree.Reader
/-!
# Records read back

A node of a tree is written as an object whose fields have different names. Whatever the fields
hold, asking for the names in the order in which they were written gives the values in this order
(`record?_record`, `fieldsOf?_node`), and the kind and the location of a node are found among them.
The parts without parts of their own are read back as well: locations, choices and integers.

The reader does not rely on the order of the fields, and it refuses an object that has a field
twice. So what is needed of the writer is that the names of a node are different, a condition on the
names alone, which each kind of node meets by evaluation.

Beside this stands what the reader checks of everything inside a statement: a value whose numbers
are in range and that is not too deep is sound (`isSound_of_plain`).
-/

set_option autoImplicit false

namespace TypedStack

open SyntaxTree

namespace Json

/-! ## Depth and soundness

The reader goes down with a budget of levels. A value that is deeper is refused, however well its
parts are formed, and so is one with a number that is out of range or a string that is no text. -/

mutual

/-- How many arrays and objects are open at once in the text of a value. -/
def depth : Json → Nat
  | .scalar _ => 0
  | .array items => itemsDepth items + 1
  | .object fields => fieldsDepth fields + 1

/-- The depth of the deepest item. -/
def itemsDepth : List Json → Nat
  | [] => 0
  | item :: items => max item.depth (itemsDepth items)

/-- The depth of the deepest field. -/
def fieldsDepth : List (Option String × Json) → Nat
  | [] => 0
  | (_, v) :: fields => max v.depth (fieldsDepth fields)

end

section

variable {P Q : Number → Prop}

/-- All items are plain, as a statement about members. The recursive form is there for recursion
over values. -/
theorem plainItems_iff {items : List Json} :
    PlainItems P items ↔ ∀ item ∈ items, item.Plain P := by
  induction items with
  | nil => simp [PlainItems]
  | cons item items ih => simp [PlainItems, ih]

theorem plainFields_iff {fields : List (Option String × Json)} :
    PlainFields P fields ↔ ∀ field ∈ fields, field.1.isSome = true ∧ field.2.Plain P := by
  induction fields with
  | nil => simp [PlainFields]
  | cons field fields ih => simp [PlainFields, ih, and_assoc]

theorem itemsDepth_le {items : List Json} {n : Nat} :
    itemsDepth items ≤ n ↔ ∀ item ∈ items, item.depth ≤ n := by
  induction items with
  | nil => simp [itemsDepth]
  | cons item items ih => rw [itemsDepth, Nat.max_le, ih, List.forall_mem_cons]

theorem fieldsDepth_le {fields : List (Option String × Json)} {n : Nat} :
    fieldsDepth fields ≤ n ↔ ∀ field ∈ fields, field.2.depth ≤ n := by
  induction fields with
  | nil => simp [fieldsDepth]
  | cons field fields ih => rw [fieldsDepth, Nat.max_le, ih, List.forall_mem_cons]

mutual

/-- Less may be asked of the numbers. By the shape of the value, as the three are defined. -/
theorem Plain.mono (himp : ∀ n, P n → Q n) : ∀ (v : Json), v.Plain P → v.Plain Q
  | .scalar s, hv => by
    cases s with
    | number n => exact himp n hv
    | broken => exact hv
    | _ => trivial
  | .array items, hv => PlainItems.mono himp items hv
  | .object fields, hv => PlainFields.mono himp fields hv

theorem PlainItems.mono (himp : ∀ n, P n → Q n) : ∀ (items : List Json),
    PlainItems P items → PlainItems Q items
  | [], _ => trivial
  | item :: items, hv => ⟨Plain.mono himp item hv.1, PlainItems.mono himp items hv.2⟩

theorem PlainFields.mono (himp : ∀ n, P n → Q n) : ∀ (fields : List (Option String × Json)),
    PlainFields P fields → PlainFields Q fields
  | [], _ => trivial
  | (_, v) :: fields, hv =>
    ⟨hv.1, Plain.mono himp v hv.2.1, PlainFields.mono himp fields hv.2.2⟩

end

end

/-- What the reader checks inside statements follows from what is known of every number, as long as
there is room. The induction is on the room, since the check goes by it and not by the value. -/
theorem isSound_of_plain (room : Nat) : ∀ (v : Json), v.Plain Number.Readable → v.depth ≤ room →
    v.isSound room = true := by
  induction room with
  | zero =>
    intro v hv hdepth
    cases v with
    | scalar s =>
      cases s with
      | number n => simpa [isSound] using hv.inRange
      | broken => exact hv.elim
      | _ => simp [isSound]
    | array items => simp [depth] at hdepth
    | object fields => simp [depth] at hdepth
  | succ room ih =>
    intro v hv hdepth
    cases v with
    | scalar s =>
      cases s with
      | number n => simpa [isSound] using hv.inRange
      | broken => exact hv.elim
      | _ => simp [isSound]
    | array items =>
      have hitems := plainItems_iff.mp hv
      have hdepths := itemsDepth_le.mp (Nat.le_of_succ_le_succ hdepth)
      simp only [isSound, List.all_eq_true]
      intro item hitem
      exact ih item (hitems item hitem) (hdepths item hitem)
    | object fields =>
      have hfields := plainFields_iff.mp hv
      have hdepths := fieldsDepth_le.mp (Nat.le_of_succ_le_succ hdepth)
      simp only [isSound, List.all_eq_true]
      intro field hfield
      obtain ⟨hname, hvalue⟩ := hfields field hfield
      simp [hname, ih field.2 hvalue (hdepths field hfield)]

/-! ## Objects with named fields

What is written has a name for every field. The type of values allows for fields without one,
because the name of a field may be a string that stands for no text. -/

/-- Fields with names, as the fields of an object. -/
def named (fields : List (String × Json)) : List (Option String × Json) :=
  fields.map fun field => (some field.1, field.2)

theorem record_eq (fields : List (String × Json)) : Json.record fields = .object (named fields) :=
  rfl

theorem plain_record {P : Number → Prop} {fields : List (String × Json)} :
    (Json.record fields).Plain P ↔ ∀ field ∈ fields, field.2.Plain P := by
  rw [record_eq, Plain, plainFields_iff, named, List.forall_mem_map]
  simp

/-- An object is one level deeper than the deepest of its fields. -/
theorem depth_record {fields : List (String × Json)} {n : Nat} :
    (Json.record fields).depth ≤ n + 1 ↔ ∀ field ∈ fields, field.2.depth ≤ n := by
  rw [record_eq, depth, Nat.add_le_add_iff_right, fieldsDepth_le, named, List.forall_mem_map]

theorem depth_array {items : List Json} {n : Nat} :
    (Json.array items).depth ≤ n + 1 ↔ ∀ item ∈ items, item.depth ≤ n := by
  rw [depth, Nat.add_le_add_iff_right, itemsDepth_le]

/-- The first item and the others, each one level down. In this form the bound goes along a list. -/
theorem depth_array_cons {item : Json} {items : List Json} {n : Nat} :
    (Json.array (item :: items)).depth ≤ n ↔ item.depth < n ∧ (Json.array items).depth ≤ n := by
  rw [depth, depth, itemsDepth, Nat.succ_le_iff, Nat.max_lt, Nat.succ_le_iff]

end Json

namespace SyntaxTree

section

variable {all fields : List (String × Json)} {name : String} {v : Json}

theorem filter_named (hname : name ∉ all.map Prod.fst) :
    (Json.named all).filter (fun field => field.1 == some name) = [] := by
  rw [List.filter_eq_nil_iff]
  intro field hfield heq
  obtain ⟨source, hsource, rfl⟩ := List.mem_map.mp hfield
  have hsame : source.1 = name := by simpa using heq
  exact hname (List.mem_map.mpr ⟨source, hsource, hsame⟩)

/-- A name that was written is found once, with its value. By induction on the fields: either the
name stands here and nowhere behind, or it stands behind and not here. -/
theorem only?_named (hnames : (all.map Prod.fst).Nodup) (h : (name, v) ∈ all) :
    only? name (Json.named all) = some (some v) := by
  have hfilter : (Json.named all).filter (fun field => field.1 == some name) =
      [(some name, v)] := by
    induction all with
    | nil => cases h
    | cons field rest ih =>
      rw [List.map_cons, List.nodup_cons] at hnames
      rcases List.mem_cons.mp h with rfl | hrest
      · simp [Json.named, ← filter_named hnames.1]
      · have hother : field.1 ≠ name := by
          intro heq
          exact hnames.1 (List.mem_map.mpr ⟨_, hrest, heq.symm⟩)
        have := ih hnames.2 hrest
        simpa [Json.named, hother] using this
  simp [only?, hfilter]

/-- Fields that were written under different names are read in the order in which their names are
asked for. -/
theorem fieldsOf?_named (hnames : (all.map Prod.fst).Nodup)
    (hwritten : ∀ field ∈ fields, field ∈ all) :
    fieldsOf? (fields.map Prod.fst) (Json.named all) =
      some (fields.map fun field => some field.2) := by
  have hall : (Json.named all).all (fun field => field.1.isSome) = true := by
    simp [Json.named]
  unfold fieldsOf?
  rw [if_pos hall]
  induction fields with
  | nil => rfl
  | cons field rest ih =>
    rw [List.forall_mem_cons] at hwritten
    simp [only?_named hnames hwritten.1, ih hwritten.2]

/-- The kind of a node is found, if it is one of those that are asked for. -/
theorem kindOf?_named {kind : String} {kinds : List String} (hnames : (all.map Prod.fst).Nodup)
    (h : ("kind", Json.ofText kind) ∈ all) (hkind : kind ∈ kinds) :
    kindOf? kinds (Json.named all) = some kind := by
  simp [kindOf?, only?_named hnames h, kind?, Json.ofText, hkind]

/-- A record is read field by field when its names are asked for in the order of writing. -/
theorem record?_record {known : List String} (hknown : known = fields.map Prod.fst)
    (hnames : known.Nodup) :
    record? known (Json.record fields) = some (fields.map fun field => some field.2) := by
  subst hknown
  exact fieldsOf?_named hnames fun _ hfield => hfield

end

/-! ## Parts of nodes

Integers and choices between few things. A choice is written as a word, and a table that both sides
use says which. -/

theorem text?_ofText (s : String) : (Json.ofText s).text? = some s := rfl

/-- A number of a line is read back, being in range. -/
theorem word32?_ofInt (n : UInt32) : word32? (.ofInt n.toNat) = some n := by
  have hint : (Json.ofInt n.toNat).int? = some (.ofNat n.toNat) :=
    Json.Number.int?_ofInt (.ofNat n.toNat)
  simp [word32?, hint, UInt32.toNat_lt_size]

theorem int64?_ofInt (n : Int64) : int64? (.ofInt n.toInt) = some n := by
  have hint : (Json.ofInt n.toInt).int? = some n.toInt := Json.Number.int?_ofInt n.toInt
  have hrange : Int64.minValue.toInt ≤ n.toInt ∧ n.toInt ≤ Int64.maxValue.toInt :=
    ⟨Int64.minValue_le_toInt n, Int64.toInt_le n⟩
  simp only [int64?, hint, if_pos hrange, Int64.ofInt_toInt]

/-- Every choice has a spelling, and no other choice has the same. -/
def Spelled {α : Type} [DecidableEq α] (choices : List (String × α)) : Prop :=
  ∀ a, choices.lookup (spell choices a) = some a

/-- Each table has every choice in it, and no word twice. -/
theorem arithOps_spelled : Spelled arithOps := by
  intro op
  cases op <;> rfl

theorem shiftKinds_spelled : Spelled shiftKinds := by
  intro kind
  cases kind <;> rfl

theorem comparisons_spelled : Spelled comparisons := by
  intro op
  cases op <;> rfl

theorem types_spelled : Spelled types := by
  intro t
  cases t with
  | none => rfl
  | some t => cases t <;> rfl

/-- A choice that has a spelling of its own is read back, inside statements and outside. -/
theorem choice?_spell {α : Type} [DecidableEq α] {choices : List (String × α)}
    (h : Spelled choices) (inStatement : Bool) (a : α) :
    choice? inStatement choices (.ofText (spell choices a)) = some a :=
  h a

/-- A location is read back with all of its three fields, whatever text its source is. -/
theorem location?_toJson (l : Location) : location? l.toJson = some l := by
  simp [location?, Location.toJson, record?_record, word32?_ofInt, text?_ofText]

/-! ## Nodes

A node has its kind before the other fields and its location behind them. -/

/-- The fields of a node, with its kind and its location. -/
def nodeFields (kind : String) (l : Location) (fields : List (String × Json)) :
    List (String × Json) :=
  ("kind", .ofText kind) :: fields ++ [("loc", l.toJson)]

theorem nodeJson_eq (kind : String) (l : Location) (fields : List (String × Json)) :
    nodeJson kind l fields = .object (Json.named (nodeFields kind l fields)) :=
  rfl

section

variable {kind : String} {l : Location} {fields : List (String × Json)}
  (hnames : ("kind" :: fields.map Prod.fst ++ ["loc"]).Nodup)

include hnames

/-- The names of a node are different if those of its own fields are, and none of them is taken. -/
theorem nodup_nodeFields : ((nodeFields kind l fields).map Prod.fst).Nodup := by
  simpa [nodeFields] using hnames

theorem locationOf?_node : locationOf? (Json.named (nodeFields kind l fields)) = some l := by
  have honly : only? "loc" (Json.named (nodeFields kind l fields)) = some (some l.toJson) :=
    only?_named (nodup_nodeFields hnames) (by simp [nodeFields])
  simp [locationOf?, honly, orDefault?, location?_toJson]

theorem kindOf?_node {kinds : List String} (hkind : kind ∈ kinds) :
    kindOf? kinds (Json.named (nodeFields kind l fields)) = some kind :=
  kindOf?_named (nodup_nodeFields hnames) (by simp [nodeFields]) hkind

/-- The other fields of a node are found in the order of writing. -/
theorem fieldsOf?_node {known : List String} (hknown : known = fields.map Prod.fst) :
    fieldsOf? known (Json.named (nodeFields kind l fields)) =
      some (fields.map fun field => some field.2) := by
  subst hknown
  apply fieldsOf?_named (nodup_nodeFields hnames)
  intro field hfield
  simp [nodeFields, hfield]

end

/-! ## Soundness and depth of a node

For every part that a node can have: its numbers can be read, and there is room for it. -/

theorem plain_word32 (n : UInt32) : (Json.ofInt n.toNat).Plain Json.Number.Readable := by
  apply Json.Number.ofInt_readable
  have := n.toNat_lt
  omega

theorem plain_int64 (n : Int64) : (Json.ofInt n.toInt).Plain Json.Number.Readable := by
  apply Json.Number.ofInt_readable
  have := n.le_toInt
  have := n.toInt_lt
  omega

theorem plain_location (l : Location) : l.toJson.Plain Json.Number.Readable := by
  rw [Location.toJson, Json.plain_record]
  simp [plain_word32, Json.ofText, Json.Plain, Json.Scalar.Plain]

/-- A node is plain if its own fields are, since its kind is a text and its location is plain. -/
theorem plain_node {kind : String} {l : Location} {fields : List (String × Json)}
    (h : ∀ field ∈ fields, field.2.Plain Json.Number.Readable) :
    (nodeJson kind l fields).Plain Json.Number.Readable := by
  rw [nodeJson, Json.plain_record]
  intro field hfield
  simp only [List.cons_append, List.mem_cons, List.mem_append, List.not_mem_nil, or_false] at hfield
  rcases hfield with rfl | hmem | rfl
  · trivial
  · exact h field hmem
  · exact plain_location l

/-- Where there is room for a node, there is room for its fields one level down. -/
theorem room_of_node {kind : String} {l : Location} {fields : List (String × Json)} {room : Nat}
    (h : (nodeJson kind l fields).depth ≤ room) :
    ∃ rest, room = rest + 1 ∧ ∀ field ∈ fields, field.2.depth ≤ rest := by
  cases room with
  | zero => simp [nodeJson, Json.record, Json.depth] at h
  | succ rest =>
    refine ⟨rest, rfl, ?_⟩
    intro field hfield
    exact Json.depth_record.mp h field (by simp [hfield])

end SyntaxTree

end TypedStack
