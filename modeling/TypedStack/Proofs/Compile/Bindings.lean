import TypedStack.Proofs.Compile.Failures
/-!
# The variables of a scope over its lifetime

A scope is opened with the parameters of a function, and then names are declared in it, some of them
in vain. It keeps its variables in the order of their slots, and beside that an index from names to
places. A declaration hands the scope back whether it succeeds or fails, so that nothing but a proof
says that a failure leaves it alone. What one request does is said by `Scope.Outcome`, which knows
only the order: a request that is refused changes nothing. `Scope.bindings_in_order` says what
follows for any number of requests.
-/

set_option autoImplicit false

namespace TypedStack.Compile

/-- A name that is to be declared. -/
structure Request where
  name : String
  type : ResultType
  loc : Location
  deriving DecidableEq, Repr

namespace Scope

/-- The answer to a request. -/
def answer (s : Scope) (r : Request) : Except CompileError Variable :=
  ((declare r.name r.type r.loc).on s).1

/-- The scope that a request leaves, whatever its answer. -/
def perform (s : Scope) (r : Request) : Scope := ((declare r.name r.type r.loc).on s).2

def performAll (s : Scope) (requests : List Request) : Scope := requests.foldl perform s

/-- The variables that requests are answered with, in their order. -/
def answered (s : Scope) : List Request → List Variable
  | [] => []
  | r :: requests =>
    match s.answer r with
    | .ok v => v :: (s.perform r).answered requests
    | .error _ => (s.perform r).answered requests

/-- The names of a scope, in the order of their slots. -/
def names (s : Scope) : List String := s.bound.toList.map Variable.name

/-- What a request does: it is refused for want of a type, because its name is taken, or because all
slots are, and then the scope stays as it is; otherwise it gets the next slot. -/
inductive Outcome (s : Scope) (r : Request) : Except CompileError Variable → Scope → Prop
  | void (hvoid : r.type = none) : Outcome s r (.error (.broken r.loc .voidValueUsed)) s
  | taken {t : ValueType} (htype : r.type = some t) (htaken : r.name ∈ s.names) :
      Outcome s r (.error (.broken r.loc (.redeclaration r.name))) s
  | full {t : ValueType} (htype : r.type = some t) (hnew : r.name ∉ s.names)
      (hfull : s.bound.size = 65536) : Outcome s r (.error (.internal .tooManyVariables)) s
  | bound {t : ValueType} {v : Variable} {s' : Scope} (htype : r.type = some t)
      (hnew : r.name ∉ s.names) (hroom : s.bound.size < 65536)
      (hv : v = ⟨r.name, t, UInt16.ofNat s.bound.size, false⟩)
      (hbound : s'.bound = s.bound.push v) : Outcome s r (.ok v) s'

/-! ## One request

A request is checked first (`Scope.next`), and the scope is changed only if the check succeeds. -/

theorem perform_ok {s : Scope} {r : Request} {v : Variable}
    (h : s.next r.name r.type false r.loc = .ok v) :
    s.answer r = .ok v ∧ s.perform r = s.add v := by
  unfold answer perform declare
  rw [bind_bound h]
  exact ⟨rfl, rfl⟩

theorem perform_error {s : Scope} {r : Request} {e : CompileError}
    (h : s.next r.name r.type false r.loc = .error e) :
    s.answer r = .error e ∧ s.perform r = s := by
  unfold answer perform declare
  rw [bind_refused h]
  exact ⟨rfl, rfl⟩

/-- What a request leaves, through the check alone. -/
theorem perform_eq (s : Scope) (r : Request) :
    s.perform r = (s.next r.name r.type false r.loc).toOption.elim s s.add := by
  cases h : s.next r.name r.type false r.loc with
  | error e => exact (perform_error h).2
  | ok v => exact (perform_ok h).2

theorem names_eq (s : Scope) : s.names = s.declarations.map Prod.fst := by
  rw [names, declarations, List.map_map]
  rfl

/-- A request is refused or bound as its outcome says, and a scope whose parts agree stays so. -/
theorem Ordered.outcome {s : Scope} (h : s.Ordered) (r : Request) :
    Outcome s r (s.answer r) (s.perform r) ∧ (s.perform r).Ordered := by
  have hfree : s.contains r.name = false ↔ r.name ∉ s.names := by
    rw [names_eq, h.contains_iff]
  cases hnext : s.next r.name r.type false r.loc with
  | error e =>
    obtain ⟨hanswer, hperform⟩ := perform_error hnext
    rw [hanswer, hperform]
    refine ⟨?_, h⟩
    -- the three reasons for which a name is not bound
    rcases next_fails.mp hnext with ⟨hvoid, rfl⟩ | ⟨t, ht, ⟨htaken, rfl⟩ | ⟨hnew, hfull, rfl⟩⟩
    · exact .void hvoid
    · refine .taken ht ?_
      by_contra hmem
      rw [hfree.mpr hmem] at htaken
      cases htaken
    · exact .full ht (hfree.mp hnew) (Nat.le_antisymm h.size_le hfull)
  | ok v =>
    obtain ⟨hanswer, hperform⟩ := perform_ok hnext
    obtain ⟨hnew, hroom, hname, htype, hslot, hparam⟩ := next_ok hnext
    rw [hanswer, hperform]
    refine ⟨.bound htype (hfree.mp (contains_eq_false.mpr hnew)) hroom ?_ rfl,
      h.add (hname ▸ hnew) hroom hslot⟩
    rw [← hname, ← hslot, ← hparam]

/-! ## Any number of requests

By induction on the requests, with the outcome of one as the step. The order of the scope is kept by
each of them, so it is there to begin the next with. -/

theorem Outcome.refused {s s' : Scope} {r : Request} {e : CompileError}
    (h : Outcome s r (.error e) s') : s' = s := by
  cases h <;> rfl

/-- A request that is answered with a variable puts it at the end of the scope. It is no parameter,
and has the name and the type that were asked for. -/
theorem Outcome.answered {s s' : Scope} {r : Request} {v : Variable} (h : Outcome s r (.ok v) s') :
    s'.bound = s.bound.push v ∧ v.isParam = false ∧ r.name = v.name ∧ r.type = some v.type := by
  cases h with
  | bound htype hnew hroom hv hbound =>
    subst hv
    exact ⟨hbound, rfl, rfl, htype⟩

/-- Requests put the variables that they are answered with behind those that are there. -/
theorem Ordered.performAll {s : Scope} (h : s.Ordered) (requests : List Request) :
    (s.performAll requests).Ordered ∧
      (s.performAll requests).bound.toList = s.bound.toList ++ s.answered requests ∧
      ∀ v ∈ s.answered requests, v.isParam = false ∧
        ∃ r ∈ requests, r.name = v.name ∧ r.type = some v.type := by
  induction requests generalizing s with
  | nil => exact ⟨h, (List.append_nil _).symm, fun v hv => absurd hv List.not_mem_nil⟩
  | cons r requests ih =>
    obtain ⟨hout, hordered⟩ := h.outcome r
    obtain ⟨hordered', hbound, hlocal⟩ := ih hordered
    have hlater : ∀ v ∈ (s.perform r).answered requests, v.isParam = false ∧
        ∃ q ∈ r :: requests, q.name = v.name ∧ q.type = some v.type := by
      intro v hv
      obtain ⟨hparam, q, hq, hasked⟩ := hlocal v hv
      exact ⟨hparam, q, List.mem_cons_of_mem _ hq, hasked⟩
    refine ⟨hordered', ?_⟩
    cases hanswer : s.answer r with
    | error e =>
      rw [hanswer] at hout
      rw [Scope.answered, hanswer]
      refine ⟨?_, hlater⟩
      show ((s.perform r).performAll requests).bound.toList = _
      rw [hbound, hout.refused]
    | ok v =>
      rw [hanswer] at hout
      obtain ⟨hpush, hparam, hname, htype⟩ := hout.answered
      rw [Scope.answered, hanswer]
      constructor
      · show ((s.perform r).performAll requests).bound.toList = _
        rw [hbound, hpush, Array.toList_push, List.append_assoc, List.singleton_append]
      · intro w hw
        rcases List.mem_cons.mp hw with rfl | hw
        · exact ⟨hparam, r, List.mem_cons_self, hname, htype⟩
        · exact hlater w hw

theorem performAll_append (s : Scope) (before later : List Request) :
    s.performAll (before ++ later) = (s.performAll before).performAll later := by
  unfold performAll
  exact List.foldl_append

/-! ## From the parameters on

A scope is opened with the parameters by the same operations, so that what is known of requests
holds from an empty scope on. -/

theorem bindParams_isParam {loc : Location} (params : List Param) : ∀ {s s' : Scope},
    (bindParams loc params).on s = (.ok (), s') →
    (∀ v ∈ s.bound, v.isParam = true) → ∀ v ∈ s'.bound, v.isParam = true := by
  induction params with
  | nil =>
    intro s s' h hs
    cases h
    exact hs
  | cons p params ih =>
    intro s s' h hs
    cases hnext : s.next p.name p.type true loc with
    | error e =>
      rw [bindParams_cons_refused hnext] at h
      cases h
    | ok v =>
      rw [bindParams_cons_bound hnext] at h
      apply ih h
      intro w hw
      rcases Array.mem_push.mp hw with hw | rfl
      · exact hs w hw
      · exact (next_ok hnext).2.2.2.2.2

/-- What is known of a scope that was opened with some parameters and then got some requests. -/
structure InOrder (params : List Param) (start : Scope) (requests : List Request) : Prop where
  /-- The parameters come first, as they were given, and then what was declared. -/
  params_first : params = start.declarations.map paramOf ∧ ∀ v ∈ start.bound, v.isParam = true
  order : (start.performAll requests).bound.toList = start.bound.toList ++ start.answered requests
  locals : ∀ v ∈ start.answered requests, v.isParam = false ∧
    ∃ r ∈ requests, r.name = v.name ∧ r.type = some v.type
  numbered : ∀ (i : Nat) (v : Variable),
    (start.performAll requests).bound[i]? = some v → v.slot.toNat = i
  distinct : (start.performAll requests).names.Nodup
  /-- The index has the place of every name that is bound, and no other entry. -/
  indexed : ∀ (name : String) (i : Nat),
    (start.performAll requests).byName[name]? = some i ↔
      ∃ v, (start.performAll requests).bound[i]? = some v ∧ v.name = name
  found : ∀ (name : String) (loc : Location) (v : Variable),
    (start.performAll requests).lookup name loc = .ok v ↔
      v ∈ (start.performAll requests).bound ∧ v.name = name
  missing : ∀ (name : String) (loc : Location) (e : CompileError),
    (start.performAll requests).lookup name loc = .error e ↔
      e = .broken loc (.undefinedVariable name) ∧ name ∉ (start.performAll requests).names
  /-- What each request did, to the scope as it was then. -/
  outcome : ∀ before r later, requests = before ++ r :: later →
    Outcome (start.performAll before) r ((start.performAll before).answer r)
      (start.performAll (before ++ [r]))
  /-- The slots of an earlier time are among the later ones, in the same places. -/
  stays : ∀ before later, requests = before ++ later →
    (start.performAll before).bound.toList <+: (start.performAll requests).bound.toList

/-- However many names are declared in a scope that was opened with parameters, and however many of
them in vain: its variables are numbered in the order in which they were bound, parameters first, no
name is bound twice, the index agrees with the order, so that a name leads to its variable, later
requests leave earlier variables alone, and a request that is refused leaves everything as it
was. -/
theorem bindings_in_order {params : List Param} {loc : Location} {start : Scope}
    (h : Scope.ofParams params loc = .ok start) (requests : List Request) :
    InOrder params start requests := by
  obtain ⟨hstart, hparams⟩ := Scope.ofParams_ok h
  obtain ⟨hordered, horder, hlocals⟩ := hstart.performAll requests
  have hisParam := bindParams_isParam params (ofParams_ok_iff.mp h) (by simp)
  constructor
  · exact ⟨hparams, hisParam⟩
  · exact horder
  · exact hlocals
  · intro i v hv
    exact hordered.slot hv
  · rw [names_eq]
    exact hordered.nodup
  · intro name i
    exact hordered.indexed
  · intro name loc v
    rw [Scope.lookup_ok, hordered.names]
  · intro name loc e
    rw [Scope.lookup_fails, hordered.new_iff, ← names_eq, and_comm]
  · intro before r later _
    rw [performAll_append]
    exact ((hstart.performAll before).1.outcome r).1
  · intro before later hsplit
    rw [hsplit, performAll_append]
    have hlater := ((hstart.performAll before).1.performAll later).2.1
    exact ⟨_, hlater.symm⟩

/-- A parameter is declared again, a variable twice and one without a type. -/
def shadowing : List Request :=
  [⟨"n", some .double, {}⟩, ⟨"x", some .char, {}⟩, ⟨"v", none, {}⟩, ⟨"x", some .int, {}⟩,
    ⟨"y", some .bool, {}⟩]

/-- Of the five requests two are answered: the others find their name taken, or have no type. -/
theorem bindings_in_order_shadowing : ∃ start,
    Scope.ofParams [⟨"n", some .int⟩] {} = .ok start ∧
      InOrder [⟨"n", some .int⟩] start shadowing ∧
      (start.performAll shadowing).bound.toList =
        [⟨"n", .int, 0, true⟩, ⟨"x", .char, 1, false⟩, ⟨"y", .bool, 2, false⟩] := by
  have hstart : Scope.ofParams [⟨"n", some .int⟩] {} =
      .ok (({} : Scope).add ⟨"n", .int, 0, true⟩) := by
    simp [ofParams_eq]
  refine ⟨_, hstart, bindings_in_order hstart shadowing, ?_⟩
  simp [performAll, shadowing, perform_eq, Except.toOption]

end Scope

end TypedStack.Compile
