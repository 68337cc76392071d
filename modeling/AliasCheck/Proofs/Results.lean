import Mathlib.Data.List.Forall2

/-!
# Results that may be errors

What it means for a chain of steps to succeed or to fail, step by step.
-/

namespace AliasCheck

variable {ε ε' α β : Type}

theorem ok_eq_ok {a b : α} : (.ok a : Except ε α) = .ok b ↔ b = a := by
  rw [Except.ok.injEq, eq_comm]

theorem bind_eq_ok {x : Except ε α} {f : α → Except ε β} {b : β} :
    x >>= f = .ok b ↔ ∃ a, x = .ok a ∧ f a = .ok b := by
  cases x with
  | ok a =>
    constructor
    · exact fun h => ⟨a, rfl, h⟩
    · rintro ⟨_, ⟨⟩, h⟩
      exact h
  | error e =>
    constructor
    · exact fun h => by cases h
    · rintro ⟨_, h, _⟩
      cases h

theorem bind_eq_error {x : Except ε α} {f : α → Except ε β} {e : ε} (h : x >>= f = .error e) :
    x = .error e ∨ ∃ a, x = .ok a ∧ f a = .error e := by
  cases x with
  | error e' =>
    cases h
    exact .inl rfl
  | ok a => exact .inr ⟨a, rfl, h⟩

theorem exists_bind_eq_error {x : Except ε α} {f : α → Except ε β} :
    (∃ e, x >>= f = .error e) ↔
      (∃ e, x = .error e) ∨ ∃ a, x = .ok a ∧ ∃ e, f a = .error e := by
  constructor
  · rintro ⟨e, h⟩
    rcases bind_eq_error h with hx | ⟨a, hx, hf⟩
    · exact .inl ⟨e, hx⟩
    · exact .inr ⟨a, hx, e, hf⟩
  · rintro (⟨e, rfl⟩ | ⟨a, rfl, e, hf⟩)
    · exact ⟨e, rfl⟩
    · exact ⟨e, hf⟩

/-- Chains of steps are alike if they are so on what the first steps return. -/
theorem bind_congr_ok {x y : Except ε α} {f g : α → Except ε β} (hx : x = y)
    (h : ∀ a, x = .ok a → f a = g a) : x >>= f = y >>= g := by
  subst hx
  cases x with
  | ok a => exact h a rfl
  | error e => rfl

theorem map_eq_ok {x : Except ε α} {f : α → β} {b : β} :
    x.map f = .ok b ↔ ∃ a, x = .ok a ∧ f a = b := by
  cases x <;> simp [Except.map]

theorem map_eq_ok_of {x : Except ε α} {f : α → β} {p : α → Prop} (h : ∀ a, x = .ok a ↔ p a)
    {b : β} : x.map f = .ok b ↔ ∃ a, p a ∧ b = f a := by
  rw [map_eq_ok]
  constructor
  · rintro ⟨a, ha, rfl⟩
    exact ⟨a, (h a).mp ha, rfl⟩
  · rintro ⟨a, ha, rfl⟩
    exact ⟨a, (h a).mpr ha, rfl⟩

theorem map_map_eq {γ : Type} (f : α → β) (g : β → γ) (x : Except ε α) :
    (x.map f).map g = x.map fun a => g (f a) := by
  cases x <;> rfl

theorem mapError_eq_ok {x : Except ε α} {f : ε → ε'} {a : α} :
    x.mapError f = .ok a ↔ x = .ok a := by
  cases x with
  | ok b => exact ok_eq_ok.trans ok_eq_ok.symm
  | error e => exact ⟨nofun, nofun⟩

theorem map_bind {γ : Type} (f : α → Except ε β) (g : β → γ) (x : Except ε α) :
    (x >>= f).map g = x >>= fun a => (f a).map g := by
  cases x <;> rfl

theorem eq_ok_of_ne_error {x : Except ε Unit} (h : ∀ e, x ≠ .error e) : x = .ok () := by
  cases x with
  | ok _ => rfl
  | error e => exact absurd rfl (h e)

theorem map_eq_error {x : Except ε α} {f : α → β} {e : ε} : x.map f = .error e ↔ x = .error e := by
  cases x with
  | ok a => exact ⟨nofun, nofun⟩
  | error e' => rw [Except.map, Except.error.injEq, Except.error.injEq]

theorem exists_map_eq_error {x : Except ε α} {f : α → β} :
    (∃ e, x.map f = .error e) ↔ ∃ e, x = .error e := exists_congr fun _ => map_eq_error

theorem exists_mapError_eq_error {x : Except ε α} {f : ε → ε'} :
    (∃ e, x.mapError f = .error e) ↔ ∃ e, x = .error e := by
  cases x with
  | ok a => exact ⟨nofun, nofun⟩
  | error e => exact ⟨fun _ => ⟨e, rfl⟩, fun _ => ⟨f e, rfl⟩⟩

/-! ## One step for each item of a list -/

theorem mapM_eq_ok {f : α → Except ε β} {xs : List α} {ys : List β} :
    xs.mapM f = .ok ys ↔ List.Forall₂ (fun x y => f x = .ok y) xs ys := by
  induction xs generalizing ys with
  | nil =>
    rw [List.mapM_nil, List.forall₂_nil_left_iff]
    exact ok_eq_ok
  | cons x xs ih =>
    rw [List.mapM_cons, List.forall₂_cons_left_iff]
    constructor
    · intro h
      obtain ⟨y, hy, h⟩ := bind_eq_ok.mp h
      obtain ⟨ys, hys, h⟩ := bind_eq_ok.mp h
      cases h
      exact ⟨y, ys, hy, ih.mp hys, rfl⟩
    · rintro ⟨y, ys, hy, hys, rfl⟩
      exact bind_eq_ok.mpr ⟨y, hy, bind_eq_ok.mpr ⟨ys, ih.mpr hys, rfl⟩⟩

/-- Going through two lists one behind the other succeeds if going through each of them does. -/
theorem mapM_append_eq_ok {f : α → Except ε β} {xs ys : List α} {zs : List β} :
    (xs ++ ys).mapM f = .ok zs ↔
      ∃ as bs, xs.mapM f = .ok as ∧ ys.mapM f = .ok bs ∧ zs = as ++ bs := by
  rw [List.mapM_append]
  constructor
  · intro h
    obtain ⟨as, has, h⟩ := bind_eq_ok.mp h
    obtain ⟨bs, hbs, h⟩ := bind_eq_ok.mp h
    exact ⟨as, bs, has, hbs, ok_eq_ok.mp h⟩
  · rintro ⟨as, bs, has, hbs, rfl⟩
    exact bind_eq_ok.mpr ⟨as, has, bind_eq_ok.mpr ⟨bs, hbs, rfl⟩⟩

theorem mapM_congr {f g : α → Except ε β} {xs : List α} (h : ∀ x ∈ xs, f x = g x) :
    xs.mapM f = xs.mapM g := by
  induction xs with
  | nil => rfl
  | cons x xs ih =>
    obtain ⟨hx, hxs⟩ := List.forall_mem_cons.mp h
    rw [List.mapM_cons, List.mapM_cons, hx, ih hxs]

/-- Each item of a list has a partner in a list of partners. -/
theorem exists_mem_of_forall₂ {R : α → β → Prop} {xs : List α} {ys : List β}
    (h : List.Forall₂ R xs ys) {x : α} (hx : x ∈ xs) : ∃ y ∈ ys, R x y := by
  induction h with
  | nil => cases hx
  | @cons z y xs ys hfirst _ ih =>
    rcases List.mem_cons.mp hx with rfl | hmem
    · exact ⟨y, List.mem_cons_self, hfirst⟩
    · obtain ⟨other, hother, hR⟩ := ih hmem
      exact ⟨other, List.mem_cons_of_mem y hother, hR⟩

/-- Whatever comes of a list comes of one of its items. -/
theorem exists_of_mem_mapM {f : α → Except ε β} {xs : List α} {ys : List β}
    (h : xs.mapM f = .ok ys) {y : β} (hy : y ∈ ys) : ∃ x ∈ xs, f x = .ok y :=
  exists_mem_of_forall₂ (List.Forall₂.flip (mapM_eq_ok.mp h)) hy

/-- Each item of a list has a partner if and only if the list has a list of partners. -/
theorem exists_forall₂_iff {R : α → β → Prop} {xs : List α} :
    (∃ ys, List.Forall₂ R xs ys) ↔ ∀ x ∈ xs, ∃ y, R x y := by
  induction xs with
  | nil => exact ⟨fun _ => List.forall_mem_nil _, fun _ => ⟨[], .nil⟩⟩
  | cons x xs ih =>
    rw [List.forall_mem_cons, ← ih]
    constructor
    · rintro ⟨_, h⟩
      obtain ⟨y, ys, hy, hys, rfl⟩ := List.forall₂_cons_left_iff.mp h
      exact ⟨⟨y, hy⟩, ys, hys⟩
    · rintro ⟨⟨y, hy⟩, ys, hys⟩
      exact ⟨y :: ys, .cons hy hys⟩

/-- Going through a list succeeds if every step does. -/
theorem exists_mapM_eq_ok {f : α → Except ε β} {xs : List α} :
    (∃ ys, xs.mapM f = .ok ys) ↔ ∀ x ∈ xs, ∃ y, f x = .ok y := by
  rw [← exists_forall₂_iff]
  exact exists_congr fun _ => mapM_eq_ok

/-- Going through a list fails with the error of the first step that fails. -/
theorem mapM_eq_error {f : α → Except ε β} {before after : List α} {x : α} {e : ε}
    (hbefore : ∀ y ∈ before, ∃ z, f y = .ok z) (hx : f x = .error e) :
    (before ++ x :: after).mapM f = .error e := by
  induction before with
  | nil =>
    rw [List.nil_append, List.mapM_cons, hx]
    rfl
  | cons y before ih =>
    rw [List.forall_mem_cons] at hbefore
    obtain ⟨⟨z, hz⟩, hrest⟩ := hbefore
    rw [List.cons_append, List.mapM_cons, hz]
    show (before ++ x :: after).mapM f >>= _ = _
    rw [ih hrest]
    rfl

theorem mapM_eq_error_iff {f : α → Except ε β} {xs : List α} {e : ε} :
    xs.mapM f = .error e ↔ ∃ before x after, xs = before ++ x :: after ∧
      (∀ y ∈ before, ∃ z, f y = .ok z) ∧ f x = .error e := by
  constructor
  · intro h
    induction xs with
    | nil => cases h
    | cons x xs ih =>
      rw [List.mapM_cons] at h
      rcases bind_eq_error h with hx | ⟨z, hz, hrest⟩
      · exact ⟨[], x, xs, rfl, List.forall_mem_nil _, hx⟩
      · rcases bind_eq_error hrest with hxs | ⟨zs, -, hpure⟩
        · obtain ⟨before, y, after, rfl, hbefore, hy⟩ := ih hxs
          exact ⟨x :: before, y, after, rfl, List.forall_mem_cons.mpr ⟨⟨z, hz⟩, hbefore⟩, hy⟩
        · cases hpure
  · rintro ⟨before, x, after, rfl, hbefore, hx⟩
    exact mapM_eq_error hbefore hx

theorem exists_mapM_eq_error {f : α → Except ε β} {xs : List α} :
    (∃ e, xs.mapM f = .error e) ↔ ∃ x ∈ xs, ∃ e, f x = .error e := by
  constructor
  · rintro ⟨e, h⟩
    obtain ⟨before, x, after, rfl, -, hx⟩ := mapM_eq_error_iff.mp h
    exact ⟨x, List.mem_append_right before List.mem_cons_self, e, hx⟩
  · rintro ⟨x, hx, e, he⟩
    cases h : xs.mapM f with
    | error e' => exact ⟨e', rfl⟩
    | ok ys =>
      obtain ⟨y, hy⟩ := exists_mapM_eq_ok.mp ⟨ys, h⟩ x hx
      cases he.symm.trans hy

end AliasCheck
