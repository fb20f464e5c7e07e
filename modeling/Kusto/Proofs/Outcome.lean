/-!
# Outcomes — what a reading has gone through

A reading in steps, or of a list item by item: where it succeeded each of its steps did, and where
it failed one of them did.
-/

namespace Kusto

variable {α β ε : Type}

/-- A step after a reading that succeeds had something to start from. -/
theorem exists_of_bind_ok {x : Except ε α} {f : α → Except ε β} {y : β}
    (h : x >>= f = .ok y) : ∃ a, x = .ok a ∧ f a = .ok y := by
  cases x with
  | error w => exact absurd h (by simp [bind, Except.bind])
  | ok a => exact ⟨a, rfl, h⟩

theorem bind_eq_ok_iff {x : Except ε α} {f : α → Except ε β} {y : β} :
    x >>= f = .ok y ↔ ∃ a, x = .ok a ∧ f a = .ok y := by
  constructor
  · exact exists_of_bind_ok
  · rintro ⟨a, rfl, h⟩
    exact h

theorem map_eq_ok_iff {x : Except ε α} {f : α → β} {y : β} :
    x.map f = .ok y ↔ ∃ a, x = .ok a ∧ y = f a := by
  cases x with
  | error w => simp [Except.map]
  | ok a => simp [Except.map, eq_comm]

theorem map_eq_error_iff {x : Except ε α} {f : α → β} {w : ε} :
    x.map f = .error w ↔ x = .error w := by
  cases x with
  | error v => simp [Except.map]
  | ok a => simp [Except.map]

/-- A fault is one of the reading or of the step after it. -/
theorem error_of_bind {x : Except ε α} {f : α → Except ε β} {w : ε} (h : x >>= f = .error w) :
    x = .error w ∨ ∃ a, x = .ok a ∧ f a = .error w := by
  cases x with
  | error v => exact .inl (congrArg Except.error (Except.error.inj h))
  | ok a => exact .inr ⟨a, rfl, h⟩

/-- Each result of a list that was read has been read from one of its values. -/
theorem mem_of_mapM_ok {f : α → Except ε β} {xs : List α} {ys : List β}
    (h : xs.mapM f = .ok ys) {y : β} (hy : y ∈ ys) : ∃ x ∈ xs, f x = .ok y := by
  induction xs generalizing ys with
  | nil =>
    obtain rfl := Except.ok.inj h
    exact absurd hy List.not_mem_nil
  | cons x xs ih =>
    rw [List.mapM_cons] at h
    obtain ⟨z, hz, h⟩ := exists_of_bind_ok h
    obtain ⟨zs, hzs, h⟩ := exists_of_bind_ok h
    obtain rfl := Except.ok.inj h
    rcases List.mem_cons.mp hy with rfl | hmem
    · exact ⟨x, by simp, hz⟩
    · obtain ⟨x', hx', hf⟩ := ih hzs hmem
      exact ⟨x', by simp [hx'], hf⟩

/-- A list is read if each of its values is; then its results are theirs. -/
theorem mapM_eq_ok_iff {f : α → Except ε β} {p : α → Prop} {g : α → β} {xs : List α}
    (h : ∀ x ∈ xs, ∀ y, f x = .ok y ↔ p x ∧ y = g x) {ys : List β} :
    xs.mapM f = .ok ys ↔ (∀ x ∈ xs, p x) ∧ ys = xs.map g := by
  induction xs generalizing ys with
  | nil =>
    show Except.ok [] = Except.ok ys ↔ _
    rw [Except.ok.injEq]
    simp [eq_comm]
  | cons x xs ih =>
    have hrest : ∀ zs, xs.mapM f = .ok zs ↔ (∀ z ∈ xs, p z) ∧ zs = xs.map g :=
      fun zs => ih fun z hz => h z (List.mem_cons_of_mem x hz)
    rw [List.mapM_cons, bind_eq_ok_iff]
    constructor
    · rintro ⟨y, hy, htail⟩
      obtain ⟨zs, hzs, hys⟩ := exists_of_bind_ok htail
      obtain ⟨hx, rfl⟩ := (h x List.mem_cons_self y).mp hy
      obtain ⟨hall, rfl⟩ := (hrest zs).mp hzs
      exact ⟨List.forall_mem_cons.mpr ⟨hx, hall⟩, (Except.ok.inj hys).symm⟩
    · rintro ⟨hall, rfl⟩
      obtain ⟨hx, hxs⟩ := List.forall_mem_cons.mp hall
      refine ⟨g x, (h x List.mem_cons_self _).mpr ⟨hx, rfl⟩, ?_⟩
      exact bind_eq_ok_iff.mpr ⟨xs.map g, (hrest _).mpr ⟨hxs, rfl⟩, rfl⟩

theorem mapM_eq_ok_map {f : α → Except ε β} {g : α → β} {xs : List α}
    (h : ∀ x ∈ xs, f x = .ok (g x)) : xs.mapM f = .ok (xs.map g) := by
  have heach : ∀ x ∈ xs, ∀ y, f x = .ok y ↔ True ∧ y = g x := by
    intro x hx y
    rw [h x hx, Except.ok.injEq, true_and, eq_comm]
  exact (mapM_eq_ok_iff heach).mpr ⟨fun _ _ => trivial, rfl⟩

/-- A list is read back if each of its items is. -/
theorem mapM_map_of_forall {f : α → Except ε β} {g : β → α} {ys : List β}
    (h : ∀ y ∈ ys, f (g y) = .ok y) : (ys.map g).mapM f = .ok ys := by
  have hread : ys.mapM (f ∘ g) = .ok (ys.map id) := mapM_eq_ok_map h
  rw [List.mapM_map, hread, List.map_id]

theorem mapM_congr {f g : α → Except ε β} {xs : List α} (h : ∀ x ∈ xs, f x = g x) :
    xs.mapM f = xs.mapM g := by
  induction xs with
  | nil => rfl
  | cons x xs ih =>
    obtain ⟨hx, hxs⟩ := List.forall_mem_cons.mp h
    rw [List.mapM_cons, List.mapM_cons, hx, ih hxs]

theorem map_mapM {γ : Type} (f : α → Except ε β) (g : β → γ) (xs : List α) :
    (xs.mapM f).map (List.map g) = xs.mapM fun x => (f x).map g := by
  induction xs with
  | nil => rfl
  | cons x xs ih =>
    rw [List.mapM_cons, List.mapM_cons, ← ih]
    cases f x with
    | error w => rfl
    | ok y => cases xs.mapM f <;> rfl

/-- The fault of a list is the fault of one of its values. -/
theorem mem_of_mapM_error {f : α → Except ε β} {xs : List α} {w : ε}
    (h : xs.mapM f = .error w) : ∃ x ∈ xs, f x = .error w := by
  induction xs with
  | nil => exact absurd h (by simp [pure, Except.pure])
  | cons x xs ih =>
    rw [List.mapM_cons] at h
    rcases error_of_bind h with hx | ⟨y, -, h⟩
    · exact ⟨x, by simp, hx⟩
    · rcases error_of_bind h with hxs | ⟨ys, -, h⟩
      · obtain ⟨z, hz, hf⟩ := ih hxs
        exact ⟨z, by simp [hz], hf⟩
      · exact absurd h (by simp [pure, Except.pure])

end Kusto
