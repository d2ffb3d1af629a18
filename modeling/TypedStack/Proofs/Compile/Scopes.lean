import Mathlib.Data.List.Nodup
import TypedStack.Compile.Scope
import TypedStack.Proofs.Inversion
/-!
# The variables of a scope

A scope keeps its variables in the order of their slots and an index from names to places in that
order. `Scope.Ordered` says that the two agree: a name leads to the place of a variable of that
name, and to nothing else, and the slot of a variable is its place. Binding a name is one check and
two changes, and either all of it happens (`Scope.bind_bound`) or the scope stays as it is
(`Scope.bind_refused`); what is bound keeps the agreement (`Scope.Ordered.add`).

Most of what is proved about compiled functions is in terms of `Scope.declarations`, the names and
types in their order. With the agreement these say all there is to say about a scope: which names
are found, with which types, and in which slots.
-/

set_option autoImplicit false

namespace TypedStack.Compile

/-! ## Types that have to be there

A type may be missing where a function gives back nothing. Whether it may be is up to whoever asks.
-/

theorem valueType_ok {t : ResultType} {loc : Location} {v : ValueType} :
    valueType t loc = .ok v ↔ t = some v := by
  cases t <;> simp [valueType]

theorem valueType_fails {t : ResultType} {loc : Location} {err : CompileError} :
    valueType t loc = .error err ↔ t = none ∧ err = .broken loc .voidValueUsed := by
  cases t with
  | none => simp [valueType, eq_comm]
  | some t => simp [valueType]

/-- The name and type of a variable. -/
def Variable.declaration (v : Variable) : String × ValueType := (v.name, v.type)

/-- A parameter with a given declaration. -/
def paramOf (d : String × ValueType) : Param := ⟨d.1, some d.2⟩

namespace Scope

/-- The variables of a scope as they were declared. -/
def declarations (scope : Scope) : List (String × ValueType) :=
  scope.bound.toList.map Variable.declaration

/-- The scope with one more variable, in the next place. -/
def add (scope : Scope) (v : Variable) : Scope :=
  { bound := scope.bound.push v, byName := scope.byName.insert v.name scope.bound.size }

/-! ## The index agrees with the order

What a lookup finds, first in terms of the two parts of a scope and then, where they agree, in terms
of the declarations. -/

/-- Slots are numbered in the order of the declarations, and the index gives the place of each
name. -/
structure Ordered (scope : Scope) : Prop where
  slot : ∀ {i : Nat} {v : Variable}, scope.bound[i]? = some v → v.slot.toNat = i
  indexed : ∀ {name : String} {i : Nat},
    scope.byName[name]? = some i ↔ ∃ v, scope.bound[i]? = some v ∧ v.name = name

variable {scope scope' : Scope} {name : String} {type : ResultType} {isParam : Bool}
  {loc : Location} {v : Variable} {err : CompileError}

theorem ordered_empty : Ordered {} := ⟨by simp, by simp⟩

/-- A lookup goes through the index to the order. -/
theorem find?_some :
    scope.find? name = some v ↔ ∃ i, scope.byName[name]? = some i ∧ scope.bound[i]? = some v :=
  Option.bind_eq_some_iff

/-- A name that is not in the index is not found, whatever the order holds. -/
theorem find?_of_new (h : scope.byName[name]? = none) : scope.find? name = none := by
  rw [find?, h]
  rfl

theorem contains_eq_false : scope.contains name = false ↔ scope.byName[name]? = none := by
  rw [contains, Std.HashMap.contains_eq_isSome_getElem?]
  simp

theorem lookup_ok : scope.lookup name loc = .ok v ↔ scope.find? name = some v := by
  unfold lookup
  cases scope.find? name with
  | none => simp
  | some w => simp

/-- A name that is not found is reported where it was looked for. -/
theorem lookup_fails :
    scope.lookup name loc = .error err ↔
      scope.find? name = none ∧ err = .broken loc (.undefinedVariable name) := by
  unfold lookup
  cases scope.find? name with
  | none => simp [eq_comm]
  | some v => simp

namespace Ordered

/-- A name leads to the variable of that name, through the index. -/
theorem names (h : scope.Ordered) :
    scope.find? name = some v ↔ v ∈ scope.bound ∧ v.name = name := by
  rw [find?_some]
  constructor
  · rintro ⟨i, hindex, hv⟩
    obtain ⟨w, hw, hname⟩ := h.indexed.mp hindex
    rw [hv] at hw
    cases hw
    exact ⟨Array.mem_of_getElem? hv, hname⟩
  · rintro ⟨hmem, hname⟩
    obtain ⟨i, hi⟩ := Array.getElem?_of_mem hmem
    exact ⟨i, h.indexed.mpr ⟨v, hi, hname⟩, hi⟩

/-- The index never points past the variables: a name is missing from both or from neither. -/
theorem find?_none (h : scope.Ordered) : scope.find? name = none ↔ scope.byName[name]? = none := by
  constructor
  · intro hnone
    cases hindex : scope.byName[name]? with
    | none => rfl
    | some i =>
      obtain ⟨w, hw, -⟩ := h.indexed.mp hindex
      rw [find?_some.mpr ⟨i, hindex, hw⟩] at hnone
      cases hnone
  · exact find?_of_new

theorem declared (h : scope.Ordered) (hv : scope.find? name = some v) :
    (name, v.type) ∈ scope.declarations := by
  obtain ⟨hmem, rfl⟩ := h.names.mp hv
  exact List.mem_map.mpr ⟨v, Array.mem_toList_iff.mpr hmem, rfl⟩

theorem find (h : scope.Ordered) {t : ValueType} (ht : (name, t) ∈ scope.declarations) :
    ∃ v, scope.find? name = some v ∧ v.type = t := by
  obtain ⟨v, hmem, hv⟩ := List.mem_map.mp ht
  cases hv
  exact ⟨v, h.names.mpr ⟨Array.mem_toList_iff.mp hmem, rfl⟩, rfl⟩

/-- A name is not found if no declaration has it. -/
theorem new_iff (h : scope.Ordered) :
    scope.find? name = none ↔ name ∉ scope.declarations.map Prod.fst := by
  constructor
  · intro hnone hmem
    obtain ⟨⟨_, t⟩, hd, rfl⟩ := List.mem_map.mp hmem
    obtain ⟨v, hv, -⟩ := h.find hd
    rw [hnone] at hv
    cases hv
  · intro hnew
    cases hv : scope.find? name with
    | none => rfl
    | some v => exact absurd (List.mem_map_of_mem (h.declared hv)) hnew

/-- A name may be bound exactly if no declaration has it. -/
theorem contains_iff (h : scope.Ordered) :
    scope.contains name = false ↔ name ∉ scope.declarations.map Prod.fst := by
  rw [contains_eq_false, ← h.find?_none, h.new_iff]

/-- A slot is numbered in 16 bits, and no two variables share one. So there are no more variables
than numbers. -/
theorem size_le (h : scope.Ordered) : scope.bound.size ≤ capacity := by
  by_contra hlarge
  have hlt : capacity < scope.bound.size := by omega
  have hslot := h.slot (Array.getElem?_eq_getElem hlt)
  have hbound := scope.bound[capacity].slot.toNat_lt
  unfold capacity at hslot hbound
  omega

/-- No two variables share a name, since the index has one place for it. -/
theorem nodup (h : scope.Ordered) : (scope.declarations.map Prod.fst).Nodup := by
  have hplace : ∀ {k : Nat} {name : String},
      (scope.declarations.map Prod.fst)[k]? = some name → scope.byName[name]? = some k := by
    intro k name hk
    simp only [declarations, List.map_map, List.getElem?_map, Option.map_eq_some_iff,
      Array.getElem?_toList] at hk
    exact h.indexed.mpr hk
  rw [List.nodup_iff_getElem?_ne_getElem?]
  intro i j hij hj hsame
  rw [List.getElem?_eq_getElem hj] at hsame
  have hi := hplace hsame
  rw [hplace (List.getElem?_eq_getElem hj)] at hi
  cases hi
  exact Nat.lt_irrefl _ hij

end Ordered

/-! ## Adding a variable

Both parts of a scope change together. -/

/-- A variable with a new name, numbered by its place, keeps the index in agreement. For a name that
is not the new one nothing has changed; for the new one there is one place in the index and one in
the order. -/
theorem Ordered.add (h : scope.Ordered) (hnew : scope.byName[v.name]? = none)
    (hroom : scope.bound.size < capacity) (hslot : v.slot = UInt16.ofNat scope.bound.size) :
    (scope.add v).Ordered := by
  refine ⟨?_, ?_⟩
  · intro i w hw
    simp only [Scope.add, Array.getElem?_push] at hw
    split at hw
    · next hi =>
      cases hw
      rw [hslot, UInt16.toNat_ofNat_of_lt' hroom, hi]
    · exact h.slot hw
  · intro name i
    simp only [Scope.add, Std.HashMap.getElem?_insert, Array.getElem?_push]
    by_cases hname : v.name = name
    · subst hname
      simp only [BEq.rfl, if_true, Option.some.injEq]
      constructor
      · rintro rfl
        exact ⟨v, if_pos rfl, rfl⟩
      · rintro ⟨w, hw, hsame⟩
        split at hw
        · next hi => exact hi.symm
        · rw [h.indexed.mpr ⟨w, hw, hsame⟩] at hnew
          cases hnew
    · have hne : (v.name == name) = false := by simpa using hname
      simp only [hne, Bool.false_eq_true, if_false, h.indexed]
      constructor
      · rintro ⟨w, hw, hsame⟩
        have hi : i ≠ scope.bound.size := Nat.ne_of_lt (Array.getElem?_eq_some_iff.mp hw).1
        exact ⟨w, by rw [if_neg hi]; exact hw, hsame⟩
      · rintro ⟨w, hw, hsame⟩
        split at hw
        · cases hw
          exact absurd hsame hname
        · exact ⟨w, hw, hsame⟩

theorem find?_add (scope : Scope) (v : Variable) : (scope.add v).find? v.name = some v := by
  rw [find?_some]
  exact ⟨scope.bound.size, by simp [add], by simp [add]⟩

/-- Variables that are there are still found when a new name is bound. -/
theorem find?_add_of_find? (hnew : scope.byName[v.name]? = none) {w : Variable}
    (hw : scope.find? name = some w) : (scope.add v).find? name = some w := by
  obtain ⟨i, hindex, hi⟩ := find?_some.mp hw
  have hne : v.name ≠ name := by
    rintro rfl
    rw [hnew] at hindex
    cases hindex
  refine find?_some.mpr ⟨i, ?_, ?_⟩
  · rw [add, Std.HashMap.getElem?_insert, if_neg (by simpa using hne), hindex]
  · have hlt := (Array.getElem?_eq_some_iff.mp hi).1
    rw [add, Array.getElem?_push, if_neg (Nat.ne_of_lt hlt), hi]

@[simp] theorem declarations_add (scope : Scope) (v : Variable) :
    (scope.add v).declarations = scope.declarations ++ [v.declaration] := by
  simp [declarations, add]

/-! ## The next variable

What a name would be bound to, if it can be. Nothing is changed yet. -/

/-- The checks that a name has passed, and the variable that it gets. -/
theorem next_ok (h : scope.next name type isParam loc = .ok v) :
    scope.byName[name]? = none ∧ scope.bound.size < capacity ∧ v.name = name ∧
      type = some v.type ∧ v.slot = UInt16.ofNat scope.bound.size ∧ v.isParam = isParam := by
  simp only [next, except_throw_bind, except_guard_ok, except_bind_ok, except_pure_ok,
    valueType_ok] at h
  obtain ⟨t, ht, hnew, hroom, rfl⟩ := h
  exact ⟨contains_eq_false.mp (by simpa using hnew), by omega, rfl, ht, rfl, rfl⟩

/-- Why a name is not bound, in the order of the checks. -/
theorem next_fails :
    scope.next name type isParam loc = .error err ↔
      type = none ∧ err = .broken loc .voidValueUsed ∨
      ∃ t, type = some t ∧ (scope.contains name = true ∧ err = .broken loc (.redeclaration name) ∨
        scope.contains name = false ∧ capacity ≤ scope.bound.size ∧
          err = .internal .tooManyVariables) := by
  simp only [next, except_throw_bind, except_bind_fails, valueType_fails, valueType_ok,
    except_guard_fails]
  constructor
  · rintro (hvoid | ⟨t, ht, ⟨htaken, rfl⟩ | ⟨hfree, ⟨hfull, rfl⟩ | ⟨-, hpure⟩⟩⟩)
    · exact .inl hvoid
    · exact .inr ⟨t, ht, .inl ⟨htaken, rfl⟩⟩
    · exact .inr ⟨t, ht, .inr ⟨by simpa using hfree, hfull, rfl⟩⟩
    · cases hpure
  · rintro (hvoid | ⟨t, ht, ⟨htaken, rfl⟩ | ⟨hfree, hfull, rfl⟩⟩)
    · exact .inl hvoid
    · exact .inr ⟨t, ht, .inl ⟨htaken, rfl⟩⟩
    · exact .inr ⟨t, ht, .inr ⟨by simp [hfree], .inl ⟨hfull, rfl⟩⟩⟩

/-- A name that is not in scope gets the next slot, if there is one. -/
theorem Ordered.next (h : scope.Ordered) (hnew : name ∉ scope.declarations.map Prod.fst)
    (t : ValueType) (isParam : Bool) (loc : Location)
    (hroom : scope.declarations.length < capacity) :
    ∃ v, scope.next name (some t) isParam loc = .ok v ∧ (scope.add v).Ordered ∧
      (scope.add v).declarations = scope.declarations ++ [(name, t)] := by
  have hsize : scope.bound.size < capacity := by simpa [declarations] using hroom
  have hfree := h.contains_iff.mpr hnew
  refine ⟨⟨name, t, UInt16.ofNat scope.bound.size, isParam⟩, ?_,
    h.add (contains_eq_false.mp hfree) hsize rfl, declarations_add _ _⟩
  simp only [Scope.next, except_throw_bind, except_bind_ok, except_guard_ok, except_pure_ok,
    valueType_ok]
  exact ⟨t, rfl, by simp [hfree], by omega, rfl⟩

/-! ## Binding

A change of a scope gives back the scope in both outcomes, so that a failure is not the same as
nothing having happened. That nothing has happened is a theorem. -/

section

variable {α β : Type} {x : Change α} {f : α → Change β}

/-- A change goes on from what the one before it answers, in the scope that it leaves. -/
theorem on_bind (x : Change α) (f : α → Change β) (scope : Scope) :
    (x >>= f).on scope = (ExceptT.bindCont f (x.on scope).1).run (x.on scope).2 := rfl

theorem on_bind_ok {a : α} (h : x.on scope = (.ok a, scope')) :
    (x >>= f).on scope = (f a).on scope' := by
  rw [on_bind, h]
  rfl

theorem on_bind_error (h : x.on scope = (.error err, scope')) :
    (x >>= f).on scope = (.error err, scope') := by
  rw [on_bind, h]
  rfl

end

/-- A name that cannot be bound leaves the scope as it was. -/
theorem bind_refused (h : scope.next name type isParam loc = .error err) :
    (bind name type isParam loc).on scope = (.error err, scope) := by
  have hcheck :
      Change.on (MonadExcept.ofExcept (scope.next name type isParam loc) : Change Variable)
      scope = (.error err, scope) := by
    rw [h]
    rfl
  exact (on_bind_ok rfl).trans (on_bind_error hcheck)

/-- A name that can be bound is: its place is noted, and its variable is put there. -/
theorem bind_bound (h : scope.next name type isParam loc = .ok v) :
    (bind name type isParam loc).on scope = (.ok v, scope.add v) := by
  have hcheck :
      Change.on (MonadExcept.ofExcept (scope.next name type isParam loc) : Change Variable)
      scope = (.ok v, scope) := by
    rw [h]
    rfl
  obtain ⟨-, -, rfl, -⟩ := next_ok h
  exact (on_bind_ok rfl).trans (on_bind_ok hcheck)

/-! ## Parameters

Parameters are bound one after another, in their order, in a scope that is empty at first. -/

theorem bindParams_cons_bound {p : Param} (h : scope.next p.name p.type true loc = .ok v)
    (params : List Param) :
    (bindParams loc (p :: params)).on scope = (bindParams loc params).on (scope.add v) :=
  on_bind_ok (bind_bound h)

theorem bindParams_cons_refused {p : Param} (h : scope.next p.name p.type true loc = .error err)
    (params : List Param) : (bindParams loc (p :: params)).on scope = (.error err, scope) :=
  on_bind_error (bind_refused h)

/-- The scope of a function is the one that binding its parameters leaves. -/
theorem ofParams_ok_iff {params : List Param} :
    ofParams params loc = .ok scope ↔ (bindParams loc params).on {} = (.ok (), scope) := by
  unfold ofParams
  split
  · next s h => simp [h]
  · next e s h => simp [h]

theorem ofParams_fails_iff {params : List Param} :
    ofParams params loc = .error err ↔ ∃ s, (bindParams loc params).on {} = (.error err, s) := by
  unfold ofParams
  split
  · next s h => simp [h]
  · next e s h => simp [h]

/-- What is known of a scope after parameters were bound in it. By recursion on the parameters: each
of them has a type, and all are added behind what was there. -/
theorem bindParams_ok : ∀ {params : List Param} {scope scope' : Scope},
    (bindParams loc params).on scope = (.ok (), scope') → scope.Ordered →
      scope'.Ordered ∧ ∃ ds, params = ds.map paramOf ∧
        scope'.declarations = scope.declarations ++ ds
  | [], scope, scope', h, hs => by
    cases h
    exact ⟨hs, [], rfl, by simp⟩
  | p :: params, scope, scope', h, hs => by
    cases hnext : scope.next p.name p.type true loc with
    | error e =>
      rw [bindParams_cons_refused hnext] at h
      cases h
    | ok v =>
      rw [bindParams_cons_bound hnext] at h
      obtain ⟨hnew, hroom, hname, htype, hslot, -⟩ := next_ok hnext
      obtain ⟨hs', ds, rfl, hds⟩ := bindParams_ok h (hs.add (hname ▸ hnew) hroom hslot)
      refine ⟨hs', v.declaration :: ds, ?_, ?_⟩
      · obtain ⟨name, type⟩ := p
        simp only at hname htype
        rw [List.map_cons, paramOf, htype, ← hname]
        rfl
      · rw [hds, declarations_add, List.append_assoc, List.singleton_append]

theorem ofParams_ok {params : List Param} (h : ofParams params loc = .ok scope) :
    scope.Ordered ∧ params = scope.declarations.map paramOf := by
  obtain ⟨hs, ds, hparams, hds⟩ := bindParams_ok (ofParams_ok_iff.mp h) ordered_empty
  exact ⟨hs, by rw [hparams, hds]; rfl⟩

/-- Distinct parameters with values are bound one after the other. -/
theorem bindParams_eq (loc : Location) (inputs : List (String × ValueType)) {scope : Scope}
    (h : scope.Ordered) (hdistinct : ((scope.declarations ++ inputs).map Prod.fst).Nodup)
    (hroom : (scope.declarations ++ inputs).length ≤ capacity) :
    ∃ scope', (bindParams loc (inputs.map paramOf)).on scope = (.ok (), scope') ∧
      scope'.Ordered ∧ scope'.declarations = scope.declarations ++ inputs := by
  induction inputs generalizing scope with
  | nil => exact ⟨scope, rfl, h, by simp⟩
  | cons d inputs ih =>
    have hnew : d.1 ∉ scope.declarations.map Prod.fst := by
      rw [List.map_append, List.nodup_append] at hdistinct
      intro hmem
      exact hdistinct.2.2 d.1 hmem d.1 (by simp) rfl
    have hslot : scope.declarations.length < capacity := by
      rw [List.length_append, List.length_cons] at hroom
      omega
    obtain ⟨v, hnext, hordered, hdecl⟩ := h.next hnew d.2 true loc hslot
    rw [List.append_cons, ← hdecl] at hdistinct hroom
    obtain ⟨scope', hrun, hordered', hdecl'⟩ := ih hordered hdistinct hroom
    refine ⟨scope', ?_, hordered', ?_⟩
    · rw [List.map_cons, bindParams_cons_bound (p := paramOf d) hnext]
      exact hrun
    · rw [hdecl', hdecl, List.append_assoc, List.singleton_append]

end Scope

end TypedStack.Compile
