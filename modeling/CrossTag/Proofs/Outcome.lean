/-!
# Outcomes

Readers answer a value or the reason why there is none, and a reader made of several steps
stops at the first reason. These laws take a successful reading apart into the successful
readings of its steps, and trace a reason back to the step that gave it.
-/

namespace CrossTag.Outcome

variable {ε ε' α β : Type}

theorem bind_eq_ok_iff {x : Except ε α} {f : α → Except ε β} {b : β} :
    (x >>= f) = .ok b ↔ ∃ a, x = .ok a ∧ f a = .ok b := by
  cases x with
  | error e => simp [bind, Except.bind]
  | ok a => simp [bind, Except.bind]

theorem bind_eq_error_iff {x : Except ε α} {f : α → Except ε β} {e : ε} :
    (x >>= f) = .error e ↔ x = .error e ∨ ∃ a, x = .ok a ∧ f a = .error e := by
  cases x with
  | error e' => simp [bind, Except.bind]
  | ok a => simp [bind, Except.bind]

theorem map_eq_ok_iff {x : Except ε α} {f : α → β} {b : β} :
    x.map f = .ok b ↔ ∃ a, x = .ok a ∧ f a = b := by
  cases x with
  | error e => simp [Except.map]
  | ok a => simp [Except.map]

theorem mapError_eq_ok_iff {x : Except ε α} {f : ε → ε'} {a : α} :
    x.mapError f = .ok a ↔ x = .ok a := by
  cases x with
  | error e =>
    show Except.error (f e) = .ok a ↔ Except.error e = .ok a
    simp
  | ok b =>
    show Except.ok b = .ok a ↔ Except.ok b = .ok a
    simp

theorem mapError_eq_error_iff {x : Except ε α} {f : ε → ε'} {e : ε'} :
    x.mapError f = .error e ↔ ∃ e', x = .error e' ∧ f e' = e := by
  cases x with
  | error e' =>
    show Except.error (f e') = .error e ↔ _
    simp
  | ok a =>
    show Except.ok a = .error e ↔ _
    simp

/-- Outcomes that are told apart stay apart when their values and their reasons are renamed. -/
theorem map_mapError_inj {f : α → β} {g : ε → ε'} (hf : ∀ {a a' : α}, f a = f a' → a = a')
    (hg : ∀ {e e' : ε}, g e = g e' → e = e') {x y : Except ε α} :
    (x.map f).mapError g = (y.map f).mapError g ↔ x = y := by
  constructor
  · intro h
    cases x with
    | error e =>
      cases y with
      | error e' => exact congrArg Except.error (hg (Except.error.inj h))
      | ok a => cases h
    | ok a =>
      cases y with
      | error e => cases h
      | ok a' => exact congrArg Except.ok (hf (Except.ok.inj h))
  · rintro rfl
    rfl

/-- Every value read from a list was read from one of its members. -/
theorem mem_of_mapM {f : α → Except ε β} {xs : List α} {ys : List β}
    (h : xs.mapM f = .ok ys) {y : β} (hy : y ∈ ys) : ∃ x ∈ xs, f x = .ok y := by
  induction xs generalizing ys with
  | nil =>
    cases h
    cases hy
  | cons x xs ih =>
    rw [List.mapM_cons, bind_eq_ok_iff] at h
    obtain ⟨y', hx, h⟩ := h
    obtain ⟨ys', hxs, h⟩ := bind_eq_ok_iff.1 h
    cases h
    rcases List.mem_cons.1 hy with rfl | hy
    · exact ⟨x, List.mem_cons_self, hx⟩
    · obtain ⟨x', hx', hread⟩ := ih hxs hy
      exact ⟨x', List.mem_cons_of_mem _ hx', hread⟩

/-- If a list cannot be read, one of its members cannot, for the same reason. -/
theorem error_of_mapM {f : α → Except ε β} {xs : List α} {e : ε} (h : xs.mapM f = .error e) :
    ∃ x ∈ xs, f x = .error e := by
  induction xs with
  | nil => cases h
  | cons x xs ih =>
    rw [List.mapM_cons, bind_eq_error_iff] at h
    rcases h with hx | ⟨y, -, h⟩
    · exact ⟨x, List.mem_cons_self, hx⟩
    · rcases bind_eq_error_iff.1 h with hxs | ⟨ys, -, h⟩
      · obtain ⟨x', hx', herror⟩ := ih hxs
        exact ⟨x', List.mem_cons_of_mem _ hx', herror⟩
      · cases h

/-- **Reading a list fails at its first member that cannot be read.** -/
theorem mapM_eq_error_iff {f : α → Except ε β} {xs : List α} {e : ε} :
    xs.mapM f = .error e ↔ ∃ x, xs.find? (fun x => !(f x).isOk) = some x ∧ f x = .error e := by
  induction xs with
  | nil => simp [pure, Except.pure]
  | cons x xs ih =>
    rw [List.mapM_cons, List.find?_cons]
    cases hx : f x with
    | error e' => simp [Except.isOk, Except.toBool, bind, Except.bind, hx]
    | ok y =>
      show (xs.mapM f >>= fun ys => .ok (y :: ys)) = .error e ↔ _
      rw [bind_eq_error_iff, ih]
      simp [Except.isOk, Except.toBool]

/-- Every member of a list that is read adds a value. -/
theorem exists_mem_of_mapM {f : α → Except ε β} {xs : List α} {ys : List β}
    (h : xs.mapM f = .ok ys) {x : α} (hx : x ∈ xs) : ∃ y ∈ ys, f x = .ok y := by
  induction xs generalizing ys with
  | nil => cases hx
  | cons x' xs ih =>
    rw [List.mapM_cons, bind_eq_ok_iff] at h
    obtain ⟨y, hy, h⟩ := h
    obtain ⟨ys', hys, h⟩ := bind_eq_ok_iff.1 h
    cases h
    rcases List.mem_cons.1 hx with rfl | hx
    · exact ⟨y, List.mem_cons_self, hy⟩
    · obtain ⟨y', hy', hread⟩ := ih hys hx
      exact ⟨y', List.mem_cons_of_mem _ hy', hread⟩

/-- Where every value agrees in some respect with what it was read from, so do the lists. -/
theorem map_eq_of_mapM {γ : Type} {f : α → Except ε β} {g : α → γ} {k : β → γ}
    (hk : ∀ x y, f x = .ok y → k y = g x) {xs : List α} {ys : List β}
    (h : xs.mapM f = .ok ys) : ys.map k = xs.map g := by
  induction xs generalizing ys with
  | nil =>
    cases h
    rfl
  | cons x xs ih =>
    rw [List.mapM_cons, bind_eq_ok_iff] at h
    obtain ⟨y, hx, h⟩ := h
    obtain ⟨ys', hxs, h⟩ := bind_eq_ok_iff.1 h
    cases h
    rw [List.map_cons, List.map_cons, hk x y hx, ih hxs]

/-- A list can be read to values of some kind exactly if each of its members can. -/
theorem exists_mapM_all_iff {f : α → Except ε β} {p : β → Bool} {xs : List α} :
    (∃ ys, xs.mapM f = .ok ys ∧ ys.all p = true) ↔ ∀ x ∈ xs, ∃ y, f x = .ok y ∧ p y = true := by
  induction xs with
  | nil => simp [pure, Except.pure]
  | cons x xs ih =>
    rw [List.forall_mem_cons, ← ih]
    constructor
    · rintro ⟨ys, h, hall⟩
      rw [List.mapM_cons, bind_eq_ok_iff] at h
      obtain ⟨y, hx, h⟩ := h
      obtain ⟨ys', hxs, h⟩ := bind_eq_ok_iff.1 h
      cases h
      rw [List.all_cons, Bool.and_eq_true] at hall
      exact ⟨⟨y, hx, hall.1⟩, ys', hxs, hall.2⟩
    · rintro ⟨⟨y, hx, hy⟩, ys, hxs, hys⟩
      refine ⟨y :: ys, ?_, by rw [List.all_cons, hy, hys]; rfl⟩
      rw [List.mapM_cons, hx, hxs]
      rfl

theorem mapM_congr {f g : α → Except ε β} {xs : List α} (h : ∀ x ∈ xs, g x = f x) :
    xs.mapM g = xs.mapM f := by
  induction xs with
  | nil => rfl
  | cons x xs ih =>
    rw [List.mapM_cons, List.mapM_cons, h x List.mem_cons_self,
      ih fun y hy => h y (List.mem_cons_of_mem _ hy)]

end CrossTag.Outcome
