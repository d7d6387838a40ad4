/-!
# NodeFormula — results of steps that may fail

What succeeds as a whole succeeds in each of its steps.
-/

namespace NodeFormula

variable {α β ε ε' : Type} {r : Except ε α}

theorem bind_eq_ok {f : α → Except ε β} {b : β} (h : (r >>= f) = .ok b) :
    ∃ a, r = .ok a ∧ f a = .ok b := by
  cases r with
  | ok a => exact ⟨a, rfl, h⟩
  | error e => cases h

theorem bind_of_ok {f : α → Except ε β} {a : α} (h : r = .ok a) : (r >>= f) = f a := by
  rw [h]
  rfl

theorem bind_eq_error {f : α → Except ε β} {e : ε} (h : (r >>= f) = .error e) :
    r = .error e ∨ ∃ a, r = .ok a ∧ f a = .error e := by
  cases r with
  | ok a => exact .inr ⟨a, rfl, h⟩
  | error e' =>
    cases h
    exact .inl rfl

theorem map_eq_ok {f : α → β} {b : β} (h : r.map f = .ok b) : ∃ a, r = .ok a ∧ f a = b := by
  cases r with
  | ok a => exact ⟨a, rfl, Except.ok.inj h⟩
  | error e => cases h

theorem map_eq_error_iff {f : α → β} {e : ε} : r.map f = .error e ↔ r = .error e := by
  cases r with
  | ok a => exact iff_of_false nofun nofun
  | error e' => simp only [Except.map, Except.error.injEq]

theorem mapError_eq_ok {f : ε → ε'} {a : α} (h : r.mapError f = .ok a) : r = .ok a := by
  cases r with
  | ok b =>
    cases h
    rfl
  | error e => cases h

/-- What a traversal gives comes of an element. -/
theorem exists_of_mapM_eq_ok {f : α → Except ε β} {xs : List α} {ys : List β}
    (h : xs.mapM f = .ok ys) : ∀ y ∈ ys, ∃ x ∈ xs, f x = .ok y := by
  induction xs generalizing ys with
  | nil =>
    cases h
    exact List.forall_mem_nil _
  | cons x xs ih =>
    rw [List.mapM_cons] at h
    obtain ⟨y, hy, h⟩ := bind_eq_ok h
    obtain ⟨ys', hys, h⟩ := bind_eq_ok h
    cases h
    refine List.forall_mem_cons.2 ⟨⟨x, List.mem_cons_self, hy⟩, fun z hz => ?_⟩
    obtain ⟨x', hx', heq⟩ := ih hys z hz
    exact ⟨x', List.mem_cons_of_mem _ hx', heq⟩

/-- A traversal that succeeds does so at every element. -/
theorem isOk_of_mapM_eq_ok {f : α → Except ε β} {xs : List α} {ys : List β}
    (h : xs.mapM f = .ok ys) : ∀ x ∈ xs, ∃ y, f x = .ok y := by
  induction xs generalizing ys with
  | nil => exact List.forall_mem_nil _
  | cons x xs ih =>
    rw [List.mapM_cons] at h
    obtain ⟨y, hy, h⟩ := bind_eq_ok h
    obtain ⟨ys', hys, -⟩ := bind_eq_ok h
    exact List.forall_mem_cons.2 ⟨⟨y, hy⟩, ih hys⟩

/-- A traversal whose elements can be read off what it gives. -/
theorem map_of_mapM_eq_ok {f : α → Except ε β} {g : β → α} {xs : List α} {ys : List β}
    (hg : ∀ x y, f x = .ok y → g y = x) (h : xs.mapM f = .ok ys) : ys.map g = xs := by
  induction xs generalizing ys with
  | nil =>
    cases h
    rfl
  | cons x xs ih =>
    rw [List.mapM_cons] at h
    obtain ⟨y, hy, h⟩ := bind_eq_ok h
    obtain ⟨ys', hys, h⟩ := bind_eq_ok h
    cases h
    rw [List.map_cons, hg x y hy, ih hys]

/-- What a traversal fails with comes of an element. -/
theorem exists_of_mapM_eq_error {f : α → Except ε β} {xs : List α} {e : ε}
    (h : xs.mapM f = .error e) : ∃ x ∈ xs, f x = .error e := by
  induction xs with
  | nil => cases h
  | cons x xs ih =>
    rw [List.mapM_cons] at h
    rcases bind_eq_error h with hx | ⟨y, -, h⟩
    · exact ⟨x, List.mem_cons_self, hx⟩
    · rcases bind_eq_error h with hxs | ⟨ys, -, h⟩
      · obtain ⟨x', hx', heq⟩ := ih hxs
        exact ⟨x', List.mem_cons_of_mem _ hx', heq⟩
      · cases h

/-- **A fold fails at one of its steps**, and those before it succeed. -/
theorem foldlM_eq_error_iff {f : β → α → Except ε β} {xs : List α} {b : β} {e : ε} :
    xs.foldlM f b = .error e ↔
      ∃ front x back done, xs = front ++ x :: back ∧ front.foldlM f b = .ok done ∧
        f done x = .error e := by
  induction xs generalizing b with
  | nil =>
    refine iff_of_false nofun ?_
    rintro ⟨front, x, back, done, heq, -⟩
    exact absurd heq.symm (List.append_ne_nil_of_right_ne_nil _ (List.cons_ne_nil _ _))
  | cons x xs ih =>
    rw [List.foldlM_cons]
    constructor
    · intro h
      rcases bind_eq_error h with hx | ⟨next, hnext, h⟩
      · exact ⟨[], x, xs, b, rfl, rfl, hx⟩
      · obtain ⟨front, y, back, done, rfl, hfront, hy⟩ := ih.1 h
        refine ⟨x :: front, y, back, done, rfl, ?_, hy⟩
        rw [List.foldlM_cons, bind_of_ok hnext, hfront]
    · rintro ⟨front, y, back, done, heq, hfront, hy⟩
      cases front with
      | nil =>
        cases heq
        cases hfront
        rw [hy]
        rfl
      | cons x' front =>
        cases heq
        rw [List.foldlM_cons] at hfront
        obtain ⟨next, hnext, hfront⟩ := bind_eq_ok hfront
        rw [bind_of_ok hnext]
        exact ih.2 ⟨front, y, back, done, rfl, hfront, hy⟩

/-! ## Look-ups -/

/-- What a look-up finds is an entry. -/
theorem mem_of_lookup [DecidableEq α] {l : List (α × β)} {a : α} {b : β}
    (h : l.lookup a = some b) : (a, b) ∈ l := by
  obtain ⟨l₁, l₂, rfl, -⟩ := List.lookup_eq_some_iff.1 h
  exact List.mem_append_right _ List.mem_cons_self

/-! ## Steps on a state -/

section

variable {σ : Type} {x : EStateM ε σ α} {f : α → EStateM ε σ β} {s s' : σ}

theorem run_bind_eq_ok {b : β} (h : (x >>= f) s = .ok b s') :
    ∃ a s₁, x s = .ok a s₁ ∧ f a s₁ = .ok b s' := by
  change EStateM.bind x f s = _ at h
  rw [EStateM.bind] at h
  cases hx : x s with
  | ok a s₁ =>
    simp only [hx] at h
    exact ⟨a, s₁, rfl, h⟩
  | error e s₁ =>
    simp only [hx] at h
    cases h

/-- What follows a step that succeeds. -/
theorem run_bind_of_ok {a : α} (h : x s = .ok a s') : (x >>= f) s = f a s' := by
  change EStateM.bind x f s = _
  simp only [EStateM.bind, h]

end

end NodeFormula
