import TypedStack.Json.Reader
import TypedStack.Proofs.Json.Scalars
/-!
# JSON texts read back

What is printed for a value is scanned into the tokens of the value, whatever the line ends and
blanks between them (`renderAt_lexes`), and these are put together to the value again
(`tokens_spell`). Both go by the shape of the value; the first is stated in front of any text that
may follow, the second above any arrays and objects that may be open.

So the way there and back is cut at the tokens. The scanner does not know about nesting and the
reader does not know about characters, and neither of the two proofs has to know about the other.
-/

set_option autoImplicit false

namespace TypedStack.Json

mutual

/-- Every number has a property, every string is a text and every field has a name. -/
def Plain (P : Number → Prop) : Json → Prop
  | .scalar s => s.Plain P
  | .array items => PlainItems P items
  | .object fields => PlainFields P fields

/-- Every item is plain. -/
def PlainItems (P : Number → Prop) : List Json → Prop
  | [] => True
  | item :: items => Plain P item ∧ PlainItems P items

/-- Every field has a name, and its value is plain. -/
def PlainFields (P : Number → Prop) : List (Option String × Json) → Prop
  | [] => True
  | (name, v) :: fields => name.isSome = true ∧ Plain P v ∧ PlainFields P fields

end

/-! ## Tokens of a value

Brackets around the parts and commas between them. The first part has no comma before it, so that
the others are listed on their own. -/

/-- The name of a field as a token. A field without a name is printed with an empty one. -/
def nameToken (name : Option String) : Token := .scalar (.text (name.getD ""))

mutual

/-- The tokens that a value is printed as. -/
def tokens : Json → List Token
  | .scalar s => [.scalar s]
  | .array [] => [.beginArray, .endArray]
  | .array (item :: items) => .beginArray :: (tokens item ++ (itemTokens items ++ [.endArray]))
  | .object [] => [.beginObject, .endObject]
  | .object ((name, v) :: fields) =>
    .beginObject :: nameToken name :: .colon :: (tokens v ++ (fieldTokens fields ++ [.endObject]))

/-- The tokens of the items after the first. -/
def itemTokens : List Json → List Token
  | [] => []
  | item :: items => .comma :: (tokens item ++ itemTokens items)

/-- The tokens of the fields after the first. -/
def fieldTokens : List (Option String × Json) → List Token
  | [] => []
  | (name, v) :: fields => .comma :: nameToken name :: .colon :: (tokens v ++ fieldTokens fields)

end

/-! ## Scanning

The scanner runs on fuel, a unit for each character. `Lexes` says what it makes of a piece of the
text, and keeps the account: what is left of the fuel is enough for what is left of the text. So
pieces can be put together without any mention of fuel (`Lexes.trans`). -/

/-- What is neither a space nor a mark has to begin a value without parts. -/
theorem scanFrom_scalar {c : Char} (hspace : isSpace c = false) (hother : punctuation? c = none)
    (fuel : Nat) (cs : List Char) (done : Array Token) :
    scanFrom (fuel + 1) (c :: cs) done =
      (scanScalar c cs).bind fun found => scanFrom fuel found.2 (done.push (.scalar found.1)) := by
  conv_lhs => unfold scanFrom
  rw [hspace, if_neg (by decide)]
  split
  case h_7 => cases scanScalar c cs <;> rfl
  all_goals exact absurd hother (by decide)

/-- A text is scanned into some tokens up to the rest of it. Enough fuel leaves enough. -/
def Lexes (cs : List Char) (ts : List Token) (rest : List Char) : Prop :=
  ∀ fuel done, cs.length ≤ fuel → ∃ fuel', rest.length ≤ fuel' ∧
    scanFrom fuel cs done = scanFrom fuel' rest (done ++ ts.toArray)

namespace Lexes

theorem refl (cs : List Char) : Lexes cs [] cs := by
  intro fuel done hfuel
  exact ⟨fuel, hfuel, by simp⟩

/-- Two pieces in a row are scanned into the tokens of the one and then those of the other. -/
theorem trans {cs mid rest : List Char} {ts us : List Token} (h : Lexes cs ts mid)
    (h' : Lexes mid us rest) : Lexes cs (ts ++ us) rest := by
  intro fuel done hfuel
  obtain ⟨fuel₁, hfuel₁, heq₁⟩ := h fuel done hfuel
  obtain ⟨fuel₂, hfuel₂, heq₂⟩ := h' fuel₁ _ hfuel₁
  refine ⟨fuel₂, hfuel₂, ?_⟩
  rw [heq₁, heq₂]
  simp

/-- One step of the scanner, which takes at least a character and adds some tokens. -/
theorem step {c : Char} {cs rest : List Char} (ts : List Token) {us : List Token}
    (hstep : ∀ fuel done,
      scanFrom (fuel + 1) (c :: cs) done = scanFrom fuel rest (done ++ ts.toArray))
    (hle : rest.length ≤ cs.length) {last : List Char} (h : Lexes rest us last) :
    Lexes (c :: cs) (ts ++ us) last := by
  refine trans ?_ h
  intro fuel done hfuel
  cases fuel with
  | zero => simp at hfuel
  | succ fuel =>
    rw [List.length_cons] at hfuel
    exact ⟨fuel, by omega, hstep fuel done⟩

variable {cs last : List Char} {us : List Token}

theorem space {c : Char} (hc : isSpace c = true) (h : Lexes cs us last) :
    Lexes (c :: cs) us last := by
  refine step [] ?_ (Nat.le_refl _) h
  intro fuel done
  simp [scanFrom, hc]

/-- A line end is passed over with the blanks behind it, two for each level of nesting. -/
theorem newLine (depth : Nat) (h : Lexes cs us last) :
    Lexes (Json.newLine depth ++ cs) us last := by
  refine space rfl ?_
  induction 2 * depth with
  | zero => exact h
  | succ n ih => exact space rfl ih

theorem mark {c : Char} {t : Token} (hc : punctuation? c = some t) (h : Lexes cs us last) :
    Lexes (c :: cs) (t :: us) last := by
  refine step [t] ?_ (Nat.le_refl _) h
  intro fuel done
  unfold punctuation? at hc
  split at hc
  case h_7 => cases hc
  all_goals
    cases hc
    simp [scanFrom, isSpace]

/-- A value without parts, in front of something that does not carry it on. -/
theorem scalar {s : Scalar} (hs : s.Plain Number.Spelled) (hrest : Stops cs)
    (h : Lexes cs us last) :
    Lexes (s.render ++ cs) (.scalar s :: us) last := by
  obtain ⟨c, body, hrender, hspace, hother, hscan⟩ := scanScalar_render hs hrest
  rw [hrender, List.cons_append]
  refine step [.scalar s] ?_ (by simp) h
  intro fuel done
  rw [scanFrom_scalar hspace hother, hscan]
  simp

end Lexes

/-! ## Printed texts

A value is followed by a line end, a comma or nothing, and none of these carries on a number. -/

theorem stops_nil : Stops [] := by
  intro c hc
  cases hc

theorem stops_newLine (depth : Nat) (rest : List Char) : Stops (newLine depth ++ rest) := by
  intro c hc
  cases hc
  decide

theorem stops_cons {c : Char} (hc : c = ',' ∨ c = ':') (rest : List Char) : Stops (c :: rest) := by
  intro c' hc'
  cases hc'
  rcases hc with rfl | rfl <;> decide

theorem stops_renderItems (depth : Nat) (items : List Json) {rest : List Char} (h : Stops rest) :
    Stops (renderItems depth items rest) := by
  cases items with
  | nil => exact h
  | cons item items => exact stops_cons (.inl rfl) _

theorem stops_renderFields (depth : Nat) (fields : List (Option String × Json)) {rest : List Char}
    (h : Stops rest) : Stops (renderFields depth fields rest) := by
  cases fields with
  | nil => exact h
  | cons field fields => exact stops_cons (.inl rfl) _

/-- The name of a field, on a line of its own. -/
theorem Lexes.name (depth : Nat) (name : Option String) {cs last : List Char} {us : List Token}
    (h : Lexes cs us last) :
    Lexes (Json.newLine depth ++ quote (name.getD "") ++ ':' :: ' ' :: cs)
      (nameToken name :: .colon :: us) last := by
  rw [List.append_assoc]
  refine .newLine depth ?_
  exact Lexes.scalar (s := .text (name.getD "")) trivial (stops_cons (.inr rfl) _)
    (.mark rfl (.space rfl h))

mutual

/-- What is printed for a value is scanned into its tokens. -/
theorem renderAt_lexes : ∀ (depth : Nat) (v : Json) {rest : List Char},
    v.Plain Number.Spelled → Stops rest →
    Lexes (renderAt depth v rest) (tokens v) rest
  | _, .scalar s, _, hv, hrest => .scalar hv hrest (.refl _)
  | _, .array [], _, _, _ => .mark rfl (.mark rfl (.refl _))
  | depth, .array (item :: items), rest, hv, hrest => by
    have hend : Lexes (newLine depth ++ ']' :: rest) [.endArray] rest :=
      .newLine depth (.mark rfl (.refl _))
    have hstops := stops_newLine depth (']' :: rest)
    have hitems := renderItems_lexes (depth + 1) items hv.2 hstops
    have hitem := renderAt_lexes (depth + 1) item hv.1 (stops_renderItems (depth + 1) items hstops)
    exact .mark rfl (.newLine _ (hitem.trans (hitems.trans hend)))
  | _, .object [], _, _, _ => .mark rfl (.mark rfl (.refl _))
  | depth, .object ((name, v) :: fields), rest, hv, hrest => by
    have hend : Lexes (newLine depth ++ '\x7d' :: rest) [.endObject] rest :=
      .newLine depth (.mark rfl (.refl _))
    have hstops := stops_newLine depth ('\x7d' :: rest)
    have hfields := renderFields_lexes (depth + 1) fields hv.2.2 hstops
    have hvalue := renderAt_lexes (depth + 1) v hv.2.1
      (stops_renderFields (depth + 1) fields hstops)
    exact .mark rfl (.name _ name (hvalue.trans (hfields.trans hend)))

/-- The items after the first, each behind its comma and on its own line. -/
theorem renderItems_lexes : ∀ (depth : Nat) (items : List Json) {rest : List Char},
    PlainItems Number.Spelled items → Stops rest →
      Lexes (renderItems depth items rest) (itemTokens items) rest
  | _, [], _, _, _ => .refl _
  | depth, item :: items, rest, hv, hrest => by
    have hitems := renderItems_lexes depth items hv.2 hrest
    have hitem := renderAt_lexes depth item hv.1 (stops_renderItems depth items hrest)
    exact .mark rfl (.newLine _ (hitem.trans hitems))

theorem renderFields_lexes : ∀ (depth : Nat) (fields : List (Option String × Json))
    {rest : List Char}, PlainFields Number.Spelled fields → Stops rest →
      Lexes (renderFields depth fields rest) (fieldTokens fields) rest
  | _, [], _, _, _ => .refl _
  | depth, (name, v) :: fields, rest, hv, hrest => by
    have hfields := renderFields_lexes depth fields hv.2.2 hrest
    have hvalue := renderAt_lexes depth v hv.2.1 (stops_renderFields depth fields hrest)
    exact .mark rfl (.name _ name (hvalue.trans hfields))

end

/-- The text of a value is scanned into the tokens of the value, with no character left. -/
theorem tokens?_render {v : Json} (h : v.Plain Number.Spelled) :
    tokens? (renderAt 0 v []) = some (tokens v).toArray := by
  obtain ⟨fuel, -, hscan⟩ := renderAt_lexes 0 v h stops_nil _ #[] (Nat.le_refl _)
  unfold tokens?
  rw [hscan]
  simp [scanFrom]

/-! ## Putting tokens together

The reader keeps a stack of the arrays and objects that are open. The tokens of a value leave the
stack as it is and deliver the value to its top. -/

/-- No value begins with the end of an array, so the first item is read like any other. -/
theorem foldlM_firstItem (v : Json) (stack : List Open) :
    (tokens v).foldlM advance (.firstItem, stack) = (tokens v).foldlM advance (.value, stack) := by
  have hhead : ∃ t ts, tokens v = t :: ts ∧ t ≠ .endArray := by
    cases v with
    | scalar s => exact ⟨_, _, by rw [tokens], by simp⟩
    | array items => cases items <;> exact ⟨_, _, by rw [tokens], by simp⟩
    | object fields => cases fields <;> exact ⟨_, _, by rw [tokens], by simp⟩
  obtain ⟨t, ts, htokens, ht⟩ := hhead
  rw [htokens, List.foldlM_cons, List.foldlM_cons]
  simp only [advance, ht, if_false]

variable {P : Number → Prop}

mutual

/-- The tokens of a value are put together to the value, wherever it belongs. -/
theorem tokens_spell : ∀ (v : Json) (stack : List Open), v.Plain P →
    (tokens v).foldlM advance (.value, stack) = deliver v stack
  | .scalar s, stack, _ => by simp [tokens, advance, beginValue]
  | .array [], stack, _ => by
    simp [tokens, advance, beginValue, close]
  | .array (item :: items), stack, h => by
    have hitem : (tokens item).foldlM advance (.value, .array [] :: stack) =
        some (.separator, .array [item] :: stack) := tokens_spell item _ h.1
    have hitems := itemTokens_spell items [item] stack h.2
    simp [tokens, advance, beginValue, foldlM_firstItem, hitem, hitems, close]
  | .object [], stack, _ => by
    simp [tokens, advance, beginValue, close]
  | .object ((name, v) :: fields), stack, h => by
    obtain ⟨hname, hv, hfields⟩ := h
    obtain ⟨s, rfl⟩ := Option.isSome_iff_exists.mp hname
    have hvalue : (tokens v).foldlM advance (.value, .field [] (some s) :: stack) =
        some (.separator, .object [(some s, v)] :: stack) := tokens_spell v _ hv
    have hrest := fieldTokens_spell fields [(some s, v)] stack hfields
    simp [tokens, advance, beginValue, nameToken, takeName, hvalue, hrest, close]

/-- Items are added to the open array one by one. Those read so far are kept in reverse. -/
theorem itemTokens_spell : ∀ (items sofar : List Json) (stack : List Open), PlainItems P items →
    (itemTokens items).foldlM advance (.separator, .array sofar :: stack) =
      some (.separator, .array (items.reverse ++ sofar) :: stack)
  | [], sofar, stack, _ => by simp [itemTokens]
  | item :: items, sofar, stack, h => by
    have hitem : (tokens item).foldlM advance (.value, .array sofar :: stack) =
        some (.separator, .array (item :: sofar) :: stack) := tokens_spell item _ h.1
    have hitems := itemTokens_spell items (item :: sofar) stack h.2
    simp [itemTokens, advance, hitem, hitems]

/-- Fields are added to the open object one by one, each under its name. -/
theorem fieldTokens_spell : ∀ (fields sofar : List (Option String × Json)) (stack : List Open),
    PlainFields P fields →
    (fieldTokens fields).foldlM advance (.separator, .object sofar :: stack) =
      some (.separator, .object (fields.reverse ++ sofar) :: stack)
  | [], sofar, stack, _ => by simp [fieldTokens]
  | (name, v) :: fields, sofar, stack, h => by
    obtain ⟨hname, hv, hfields⟩ := h
    obtain ⟨s, rfl⟩ := Option.isSome_iff_exists.mp hname
    have hvalue : (tokens v).foldlM advance (.value, .field sofar (some s) :: stack) =
        some (.separator, .object ((some s, v) :: sofar) :: stack) := tokens_spell v _ hv
    have hrest := fieldTokens_spell fields ((some s, v) :: sofar) stack hfields
    simp [fieldTokens, advance, nameToken, takeName, hvalue, hrest]

end

/-- A value whose numbers are spelled as numbers are is read back from its text: first into tokens,
then into the value. -/
theorem parse?_render {v : Json} (h : v.Plain Number.Spelled) : parse? v.render = some v := by
  unfold parse? render
  rw [String.toList_ofList, tokens?_render h]
  simp [ofTokens?, tokens_spell v [] h, deliver]

end TypedStack.Json
