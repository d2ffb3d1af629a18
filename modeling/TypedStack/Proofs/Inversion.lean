import Mathlib.Data.List.Forall2
import Mathlib.Data.List.TakeDrop
/-!
# Taking computations apart

Most of the library is written as chains of checks in `Except`, some of them with a state. Each
lemma here says what a success or a failure of one link means, as an equivalence, so that a chain is
taken apart by rewriting and never by unfolding the monad.

The lemmas come in two families. A name that ends in `_ok` says when the link succeeds and with what
result, and one that ends in `_fails` says when it fails and with what error. `simp only` with the
first family turns a hypothesis `chain = .ok r` into the intermediate results of the chain, in the
order in which they were computed, for `obtain` to name. With the second family it turns `chain =
.error e` into one case for each link that may be the first to fail. Both are equivalences since the
same lemmas are used in the other direction where a chain has to be shown to succeed.

The last two sections hold facts about lists that more than one part of the library needs.
-/

set_option autoImplicit false

namespace TypedStack

variable {ε ε' σ α β : Type}

/-! ## Plain chains

The links of a chain in `Except ε` are other chains, conversions of a result or of an error, guards
that throw, and loops over a list. -/

/-- A chain succeeds if its first link does and the rest succeeds with what the first link gave. -/
theorem except_bind_ok {x : Except ε α} {f : α → Except ε β} {b : β} :
    (x >>= f) = .ok b ↔ ∃ a, x = .ok a ∧ f a = .ok b := by
  cases x with
  | error e => simp [bind, Except.bind]
  | ok a => simp [bind, Except.bind]

@[simp] theorem except_ok_bind {a : α} {f : α → Except ε β} :
    ((.ok a : Except ε α) >>= f) = f a := rfl

@[simp] theorem except_error_bind {e : ε} {f : α → Except ε β} :
    ((.error e : Except ε α) >>= f) = .error e := rfl

theorem except_bind_error {x : Except ε α} {f : α → Except ε β} {e : ε} (h : x = .error e) :
    (x >>= f) = .error e := by
  rw [h]
  rfl

/-- A chain fails where its first link does, or behind it. In the second case the first link has
succeeded, and what it gave is named, since the rest of the chain was run with it. -/
theorem except_bind_fails {x : Except ε α} {f : α → Except ε β} {e : ε} :
    (x >>= f) = .error e ↔ x = .error e ∨ ∃ a, x = .ok a ∧ f a = .error e := by
  cases x with
  | error e => simp [bind, Except.bind]
  | ok a => simp [bind, Except.bind]

theorem except_map_ok {x : Except ε α} {f : α → β} {b : β} :
    x.map f = .ok b ↔ ∃ a, x = .ok a ∧ f a = b := by
  cases x with
  | error e => simp [Except.map]
  | ok a => simp [Except.map]

theorem except_functor_map_ok {x : Except ε α} {f : α → β} {b : β} :
    f <$> x = .ok b ↔ ∃ a, x = .ok a ∧ f a = b :=
  except_map_ok

theorem except_mapError_ok {x : Except ε α} {f : ε → ε'} {a : α} :
    x.mapError f = .ok a ↔ x = .ok a := by
  cases x with
  | error e => simp [Except.mapError]
  | ok b => simp [Except.mapError]

/-- Only the error is converted, so that an error of the converted chain comes from one of the
original. -/
theorem except_mapError_fails {x : Except ε α} {f : ε → ε'} {e : ε'} :
    x.mapError f = .error e ↔ ∃ e', x = .error e' ∧ f e' = e := by
  cases x with
  | error e => simp [Except.mapError]
  | ok b => simp [Except.mapError]

theorem except_discard_ok {x : Except ε α} {u : PUnit} :
    (discard x : Except ε PUnit) = .ok u ↔ ∃ a, x = .ok a := by
  cases x with
  | error e => simp [discard, Functor.mapConst, Except.map]
  | ok a => simp [discard, Functor.mapConst, Except.map]

theorem except_pure_ok {a b : α} : (pure a : Except ε α) = .ok b ↔ a = b := by
  simp [pure, Except.pure]

theorem except_throw_ok {e : ε} {a : α} : (throw e : Except ε α) = .ok a ↔ False := by
  simp [throw, throwThe, MonadExceptOf.throw]

theorem except_throw_bind {e : ε} {k : α → Except ε β} :
    ((throw e : Except ε α) >>= k) = throw e := rfl

/-- A guard that throws was passed. The checks of the library have this form: the condition is the
violation and not what is required, so its negation is what is known afterwards. -/
theorem except_guard_ok {p : Prop} [Decidable p] {e : ε} {x : Except ε α} {a : α} :
    (if p then throw e else x) = .ok a ↔ ¬ p ∧ x = .ok a := by
  by_cases hp : p
  · simp [hp, except_throw_ok]
  · simp [hp]

/-- A guard that throws was not passed, or what follows it has failed. -/
theorem except_guard_fails {p : Prop} [Decidable p] {e e' : ε} {x : Except ε α} :
    (if p then throw e else x) = .error e' ↔ p ∧ e = e' ∨ ¬ p ∧ x = .error e' := by
  by_cases hp : p
  · simp [hp, throw, throwThe, MonadExceptOf.throw]
  · simp [hp]

/-- All items are converted, in their order. The two lists are related item by item, which is the
form in which later proofs take such a loop apart: `Forall₂` comes with lengths, positions and
appends. -/
theorem except_mapM_ok {f : α → Except ε β} :
    ∀ {as : List α} {bs : List β}, as.mapM f = .ok bs ↔ List.Forall₂ (f · = .ok ·) as bs
  | [], bs => by
    rw [List.mapM_nil, except_pure_ok]
    simp [eq_comm]
  | a :: as, bs => by
    rw [List.mapM_cons, except_bind_ok]
    constructor
    · rintro ⟨b, hb, hrest⟩
      obtain ⟨bs', hbs, hpure⟩ := except_bind_ok.mp hrest
      obtain rfl := except_pure_ok.mp hpure
      exact .cons hb (except_mapM_ok.mp hbs)
    · rintro (_ | ⟨hb, hbs⟩)
      exact ⟨_, hb, except_bind_ok.mpr ⟨_, except_mapM_ok.mpr hbs, rfl⟩⟩

/-- A loop succeeds if it does for each item, since no item knows of the others. -/
theorem except_mapM_exists {f : α → Except ε β} {as : List α} :
    (∃ bs, as.mapM f = .ok bs) ↔ ∀ a ∈ as, ∃ b, f a = .ok b := by
  induction as with
  | nil => simp [pure, Except.pure]
  | cons a as ih =>
    simp only [List.mapM_cons, except_bind_ok, except_pure_ok, List.forall_mem_cons, ← ih]
    constructor
    · rintro ⟨_, b, hb, bs, hbs, -⟩
      exact ⟨⟨b, hb⟩, bs, hbs⟩
    · rintro ⟨⟨b, hb⟩, bs, hbs⟩
      exact ⟨_, b, hb, bs, hbs, rfl⟩

/-- If not all items can be converted, the error is that of the first that cannot. The items before
it are kept in the statement: which of two errors is reported is part of what the library
promises. -/
theorem except_mapM_fails {f : α → Except ε β} {as : List α} {e : ε} (h : as.mapM f = .error e) :
    ∃ before a after, as = before ++ a :: after ∧ (∀ x ∈ before, ∃ b, f x = .ok b) ∧
      f a = .error e := by
  induction as with
  | nil => cases h
  | cons a as ih =>
    rw [List.mapM_cons, except_bind_fails] at h
    rcases h with hf | ⟨b, hb, h⟩
    · exact ⟨[], a, as, rfl, by simp, hf⟩
    · rw [except_bind_fails] at h
      rcases h with hrest | ⟨bs, -, hpure⟩
      · obtain ⟨before, a', after, rfl, hbefore, hf⟩ := ih hrest
        exact ⟨a :: before, a', after, rfl, List.forall_mem_cons.mpr ⟨⟨b, hb⟩, hbefore⟩, hf⟩
      · cases hpure

theorem except_mapM_error {f : α → Except ε β} {e : ε} {as : List α} (h : as.mapM f = .error e) :
    ∃ a ∈ as, f a = .error e := by
  obtain ⟨before, a, after, rfl, -, hf⟩ := except_mapM_fails h
  exact ⟨a, by simp, hf⟩

/-! ## Chains with a state

The same for `StateT σ (Except ε)`, which is how the assembler, the reader and the generator of code
are written. A link is now a function of a state, and a success gives a new one. Where a link cannot
change the state its lemma says so, and `obtain` with `rfl` then makes the two states one. -/

/-- The rest of the chain is run in the state that the first link has left. -/
theorem state_bind_ok {x : StateT σ (Except ε) α} {f : α → StateT σ (Except ε) β} {s : σ}
    {r : β × σ} :
    (x >>= f) s = .ok r ↔ ∃ a s', x s = .ok (a, s') ∧ f a s' = .ok r := by
  -- underneath it is a plain chain that hands on result and state as a pair
  have h : (x >>= f) s = (x s >>= fun p => f p.1 p.2) := rfl
  rw [h, except_bind_ok]
  constructor
  · rintro ⟨⟨a, s'⟩, hx, hf⟩
    exact ⟨a, s', hx, hf⟩
  · rintro ⟨a, s', hx, hf⟩
    exact ⟨(a, s'), hx, hf⟩

theorem state_map_ok {x : StateT σ (Except ε) α} {f : α → β} {s s' : σ} {b : β} :
    (f <$> x) s = .ok (b, s') ↔ ∃ a, x s = .ok (a, s') ∧ f a = b := by
  have h : (f <$> x) s = (x s >>= fun p => .ok (f p.1, p.2)) := rfl
  rw [h, except_bind_ok]
  constructor
  · rintro ⟨⟨a, t⟩, hx, hf⟩
    cases hf
    exact ⟨a, hx, rfl⟩
  · rintro ⟨a, hx, rfl⟩
    exact ⟨(a, s'), hx, rfl⟩

theorem state_pure_ok {a b : α} {s s' : σ} :
    (pure a : StateT σ (Except ε) α) s = .ok (b, s') ↔ a = b ∧ s = s' := by
  have h : (pure a : StateT σ (Except ε) α) s = .ok (a, s) := rfl
  rw [h]
  simp

/-- A check that knows nothing of the state leaves it as it is. -/
theorem state_lift_ok {x : Except ε α} {a : α} {s s' : σ} :
    (liftM x : StateT σ (Except ε) α) s = .ok (a, s') ↔ x = .ok a ∧ s = s' := by
  have h : (liftM x : StateT σ (Except ε) α) s = (x >>= fun a => .ok (a, s)) := rfl
  rw [h, except_bind_ok]
  constructor
  · rintro ⟨b, hx, hb⟩
    cases hb
    exact ⟨hx, rfl⟩
  · rintro ⟨hx, rfl⟩
    exact ⟨a, hx, rfl⟩

/-- A result that is thrown away was computed all the same, and its link may have changed the
state. -/
theorem state_discard_ok {x : StateT σ (Except ε) α} {u : PUnit} {s s' : σ} :
    (discard x : StateT σ (Except ε) PUnit) s = .ok (u, s') ↔ ∃ a, x s = .ok (a, s') := by
  have h : (discard x : StateT σ (Except ε) PUnit) s = (x s >>= fun p => .ok (⟨⟩, p.2)) := rfl
  rw [h, except_bind_ok]
  constructor
  · rintro ⟨⟨a, t⟩, hx, ht⟩
    cases ht
    exact ⟨a, hx⟩
  · rintro ⟨a, hx⟩
    exact ⟨(a, s'), hx, rfl⟩

theorem state_throw_ok {e : ε} {r : α × σ} {s : σ} :
    (throw e : StateT σ (Except ε) α) s = .ok r ↔ False := by
  have h : (throw e : StateT σ (Except ε) α) s = .error e := rfl
  rw [h]
  simp

theorem state_get_ok {a s s' : σ} :
    (get : StateT σ (Except ε) σ) s = .ok (a, s') ↔ a = s ∧ s = s' := by
  have h : (get : StateT σ (Except ε) σ) s = .ok (s, s) := rfl
  rw [h]
  simp [eq_comm]

theorem state_modify_ok {f : σ → σ} {u : Unit} {s s' : σ} :
    (modify f : StateT σ (Except ε) Unit) s = .ok (u, s') ↔ s' = f s := by
  have h : (modify f : StateT σ (Except ε) Unit) s = .ok ((), f s) := rfl
  rw [h]
  simp [eq_comm]

theorem state_modifyGet_ok {f : σ → α × σ} {a : α} {s s' : σ} :
    (modifyGet f : StateT σ (Except ε) α) s = .ok (a, s') ↔ f s = (a, s') := by
  have h : (modifyGet f : StateT σ (Except ε) α) s = .ok (f s) := rfl
  rw [h]
  simp

theorem state_throw_bind {e : ε} {k : α → StateT σ (Except ε) β} :
    ((throw e : StateT σ (Except ε) α) >>= k) = throw e := rfl

theorem state_get_bind {k : σ → StateT σ (Except ε) α} {s : σ} :
    ((get : StateT σ (Except ε) σ) >>= k) s = k s s := rfl

theorem state_guard_ok {p : Prop} [Decidable p] {e : ε} {x : StateT σ (Except ε) α} {s : σ}
    {r : α × σ} :
    (if p then throw e else x) s = .ok r ↔ ¬ p ∧ x s = .ok r := by
  by_cases hp : p
  · simp [hp, state_throw_ok]
  · simp [hp]

/-! ## Where chains with a state fail

A failure has no state: the state monad is on top of `Except`, so that what was changed before the
failure is lost. These lemmas therefore speak of the error only. -/

/-- A chain with a state fails where its first link does, or behind it, in the state which that link
has left. -/
theorem state_bind_fails {x : StateT σ (Except ε) α} {f : α → StateT σ (Except ε) β} {s : σ}
    {e : ε} :
    (x >>= f) s = .error e ↔ x s = .error e ∨ ∃ a s', x s = .ok (a, s') ∧ f a s' = .error e := by
  have h : (x >>= f) s = (x s >>= fun p => f p.1 p.2) := rfl
  rw [h, except_bind_fails]
  constructor
  · rintro (hx | ⟨⟨a, s'⟩, hx, hf⟩)
    · exact .inl hx
    · exact .inr ⟨a, s', hx, hf⟩
  · rintro (hx | ⟨a, s', hx, hf⟩)
    · exact .inl hx
    · exact .inr ⟨(a, s'), hx, hf⟩

theorem state_lift_fails {x : Except ε α} {s : σ} {e : ε} :
    (liftM x : StateT σ (Except ε) α) s = .error e ↔ x = .error e := by
  have h : (liftM x : StateT σ (Except ε) α) s = (x >>= fun a => .ok (a, s)) := rfl
  rw [h, except_bind_fails]
  simp

theorem state_discard_fails {x : StateT σ (Except ε) α} {s : σ} {e : ε} :
    (discard x : StateT σ (Except ε) PUnit) s = .error e ↔ x s = .error e := by
  have h : (discard x : StateT σ (Except ε) PUnit) s = (x s >>= fun p => .ok (⟨⟩, p.2)) := rfl
  rw [h, except_bind_fails]
  simp

theorem state_pure_fails {a : α} {s : σ} {e : ε} :
    (pure a : StateT σ (Except ε) α) s = .error e ↔ False := by
  have h : (pure a : StateT σ (Except ε) α) s = .ok (a, s) := rfl
  rw [h]
  simp

theorem state_get_fails {s : σ} {e : ε} :
    (get : StateT σ (Except ε) σ) s = .error e ↔ False := by
  have h : (get : StateT σ (Except ε) σ) s = .ok (s, s) := rfl
  rw [h]
  simp

theorem state_modify_fails {f : σ → σ} {s : σ} {e : ε} :
    (modify f : StateT σ (Except ε) Unit) s = .error e ↔ False := by
  have h : (modify f : StateT σ (Except ε) Unit) s = .ok ((), f s) := rfl
  rw [h]
  simp

theorem state_modifyGet_fails {f : σ → α × σ} {s : σ} {e : ε} :
    (modifyGet f : StateT σ (Except ε) α) s = .error e ↔ False := by
  have h : (modifyGet f : StateT σ (Except ε) α) s = .ok (f s) := rfl
  rw [h]
  simp

/-- A guard that throws was not passed, or what follows it failed. The guard itself does not look at
the state, and so its condition is a plain proposition. -/
theorem state_guard_fails {p : Prop} [Decidable p] {e e' : ε} {x : StateT σ (Except ε) α} {s : σ} :
    (if p then throw e else x) s = .error e' ↔ p ∧ e = e' ∨ ¬ p ∧ x s = .error e' := by
  have h : (throw e : StateT σ (Except ε) α) s = .error e := rfl
  by_cases hp : p
  · simp [hp, h]
  · simp [hp]

/-! ## The front of a list -/

/-- What a test accepts is taken up to an element that it refuses, or up to the end. Scanners are
built from such steps: digits up to the first other character, a line up to its end, a spelling up
to its mark. -/
theorem span_append {p : α → Bool} {xs rest : List α} (hxs : ∀ x ∈ xs, p x = true)
    (hrest : ∀ x, rest.head? = some x → p x = false) : (xs ++ rest).span p = (xs, rest) := by
  rw [List.span_eq_takeWhile_dropWhile, List.takeWhile_append_of_pos hxs,
    List.dropWhile_append_of_pos hxs]
  cases rest with
  | nil => simp
  | cons x rest =>
    have hx := hrest x rfl
    simp [hx]

/-! ## Lists and arrays side by side

Two lists are side by side if their items are related one by one. Code and its layout, blocks and
their encodings, and the frames of two machines are such lists. -/

/-- Relations that compose item by item compose for whole lists. -/
theorem forall₂_comp {α β γ : Type} {r : α → β → Prop} {s : β → γ → Prop} {t : α → γ → Prop}
    (ht : ∀ a b c, r a b → s b c → t a c) :
    ∀ {as : List α} {bs : List β} {cs : List γ}, List.Forall₂ r as bs → List.Forall₂ s bs cs →
      List.Forall₂ t as cs
  | _, _, _, .nil, .nil => .nil
  | _, _, _, .cons hr hrs, .cons hs hss => .cons (ht _ _ _ hr hs) (forall₂_comp ht hrs hss)

/-- A place in the first list has a counterpart in the second, with what stands before and behind
it. -/
theorem forall₂_split {α β : Type} {r : α → β → Prop} {a : α} {as' : List α} :
    ∀ {as : List α} {bs : List β}, List.Forall₂ r (as ++ a :: as') bs →
      ∃ bs₁ b bs₂, bs = bs₁ ++ b :: bs₂ ∧ List.Forall₂ r as bs₁ ∧ r a b ∧ List.Forall₂ r as' bs₂
  | [], _, .cons hab hrest => ⟨[], _, _, rfl, .nil, hab, hrest⟩
  | _ :: as, _, .cons hab hrest => by
    obtain ⟨bs₁, b, bs₂, rfl, h₁, hb, h₂⟩ := forall₂_split hrest
    exact ⟨_ :: bs₁, b, bs₂, rfl, .cons hab h₁, hb, h₂⟩

theorem forall₂_mem_right {α β : Type} {r : α → β → Prop} {b : β} :
    ∀ {as : List α} {bs : List β}, List.Forall₂ r as bs → b ∈ bs → ∃ a ∈ as, r a b
  | _, _, .nil, hb => by cases hb
  | _, _, .cons hab hrest, hb => by
    rcases List.mem_cons.mp hb with rfl | hb
    · exact ⟨_, List.mem_cons_self, hab⟩
    · obtain ⟨a, ha, hr⟩ := forall₂_mem_right hrest hb
      exact ⟨a, List.mem_cons_of_mem _ ha, hr⟩

/-- Lists that agree item by item under two views are equal under these views. -/
theorem map_eq_of_forall₂ {α β γ : Type} {f : α → γ} {g : β → γ} {as : List α} {bs : List β}
    (h : List.Forall₂ (fun a b => g b = f a) as bs) : bs.map g = as.map f := by
  rw [← List.forall₂_eq_eq_eq, List.forall₂_map_left_iff, List.forall₂_map_right_iff]
  exact h.flip

theorem forall₂_getElem? {α β : Type} {r : α → β → Prop} :
    ∀ {as : List α} {bs : List β} {i : Nat} {a : α}, List.Forall₂ r as bs → as[i]? = some a →
      ∃ b, bs[i]? = some b ∧ r a b
  | _, _, _, _, .nil, h => by simp at h
  | _, _, 0, _, .cons hab _, h => by
    cases h
    exact ⟨_, rfl, hab⟩
  | _, _, i + 1, _, .cons _ hrest, h => forall₂_getElem? (i := i) hrest h

/-- Two arrays that go together end together: both are empty, or both have a last item and these are
related. Stacks grow at the end of an array, so that this is how two stacks are popped side by
side. -/
theorem forall₂_back {r : α → β → Prop} {as : Array α} {bs : Array β}
    (h : List.Forall₂ r as.toList bs.toList) :
    (as = #[] ∧ bs = #[]) ∨
    ∃ (as' : Array α) (a : α) (bs' : Array β) (b : β), as = as'.push a ∧ bs = bs'.push b ∧
      List.Forall₂ r as'.toList bs'.toList ∧ r a b := by
  have hsize : as.size = bs.size := h.length_eq
  cases ha : as.back? with
  | none =>
    left
    rw [Array.back?_eq_none_iff] at ha
    subst ha
    exact ⟨rfl, Array.eq_empty_of_size_eq_zero hsize.symm⟩
  | some a =>
    right
    obtain ⟨as', rfl⟩ := Array.back?_eq_some_iff.mp ha
    cases hb : bs.back? with
    | none =>
      rw [Array.back?_eq_none_iff] at hb
      subst hb
      simp at hsize
    | some b =>
      obtain ⟨bs', rfl⟩ := Array.back?_eq_some_iff.mp hb
      -- the relation is read from the front, and the last items come to the front by reversing
      rw [← List.forall₂_reverse_iff] at h
      simp only [Array.toList_push, List.reverse_append, List.reverse_singleton,
        List.singleton_append, List.forall₂_cons, List.forall₂_reverse_iff] at h
      exact ⟨as', a, bs', b, rfl, rfl, h.2, h.1⟩

end TypedStack
