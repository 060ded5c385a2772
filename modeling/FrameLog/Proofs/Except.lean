import Mathlib.Data.List.Forall2

/-! # Results and faults

When a computation that may fail gives a result, each of its steps gave one, and when it ends with a
fault, the fault is that of its first step without a result. -/

namespace FrameLog

theorem bind_eq_ok_iff {α β ε : Type} {x : Except ε α} {f : α → Except ε β} {b : β} :
    x >>= f = .ok b ↔ ∃ a, x = .ok a ∧ f a = .ok b := by
  cases x with
  | error e =>
      constructor
      · intro h
        cases h
      · rintro ⟨a, h, -⟩
        cases h
  | ok a =>
      constructor
      · intro h
        exact ⟨a, rfl, h⟩
      · rintro ⟨a', h, hb⟩
        cases h
        exact hb

theorem pure_eq_ok_iff {α ε : Type} {a b : α} : (pure a : Except ε α) = .ok b ↔ a = b :=
  ⟨fun h => by cases h; rfl, fun h => by rw [h]; rfl⟩

theorem guard_eq_ok_iff {α β ε : Type} {p : Prop} [Decidable p] {e : ε} {f : α → Except ε β}
    {x : Except ε β} {b : β} :
    (if p then throw e >>= f else x) = .ok b ↔ ¬ p ∧ x = .ok b := by
  split
  · rename_i hp
    constructor
    · intro h
      cases h
    · intro h
      exact absurd hp h.1
  · rename_i hp
    exact (and_iff_right hp).symm

theorem mapError_eq_ok_iff {α ε δ : Type} {x : Except ε α} {f : ε → δ} {a : α} :
    x.mapError f = .ok a ↔ x = .ok a := by
  cases x with
  | error e =>
      constructor
      · intro h
        cases h
      · intro h
        cases h
  | ok b => rw [Except.mapError, Except.ok.injEq, Except.ok.injEq]

theorem map_eq_ok_iff {α β ε : Type} {x : Except ε α} {f : α → β} {b : β} :
    x.map f = .ok b ↔ ∃ a, x = .ok a ∧ f a = b := by
  cases x with
  | error e =>
      constructor
      · intro h
        cases h
      · rintro ⟨a, h, -⟩
        cases h
  | ok a => simp [Except.map]

theorem mapM_eq_ok_iff {α β ε : Type} {f : α → Except ε β} {xs : List α} {ys : List β} :
    xs.mapM f = .ok ys ↔ List.Forall₂ (fun x y => f x = .ok y) xs ys := by
  induction xs generalizing ys with
  | nil => rw [List.mapM_nil, pure_eq_ok_iff, List.forall₂_nil_left_iff, eq_comm]
  | cons x xs ih =>
      simp only [List.mapM_cons, bind_eq_ok_iff, pure_eq_ok_iff, ih, List.forall₂_cons_left_iff]
      constructor
      · rintro ⟨y, hy, zs, hzs, rfl⟩
        exact ⟨y, zs, hy, hzs, rfl⟩
      · rintro ⟨y, zs, hy, hzs, rfl⟩
        exact ⟨y, hy, zs, hzs, rfl⟩

/-! ## Faults -/

theorem bind_eq_error_iff {α β ε : Type} {x : Except ε α} {f : α → Except ε β} {e : ε} :
    x >>= f = .error e ↔ x = .error e ∨ ∃ a, x = .ok a ∧ f a = .error e := by
  cases x with
  | error e' =>
      constructor
      · intro h
        cases h
        exact .inl rfl
      · rintro (h | ⟨a, h, -⟩)
        · cases h
          rfl
        · cases h
  | ok a =>
      constructor
      · intro h
        exact .inr ⟨a, rfl, h⟩
      · rintro (h | ⟨a', h, he⟩)
        · cases h
        · cases h
          exact he

theorem map_eq_error_iff {α β ε : Type} {x : Except ε α} {f : α → β} {e : ε} :
    x.map f = .error e ↔ x = .error e := by
  cases x with
  | error e' => simp [Except.map]
  | ok a => simp [Except.map]

theorem mapError_eq_error_iff {α ε δ : Type} {x : Except ε α} {f : ε → δ} {d : δ} :
    x.mapError f = .error d ↔ ∃ e, x = .error e ∧ d = f e := by
  cases x with
  | error e =>
      constructor
      · intro h
        cases h
        exact ⟨e, rfl, rfl⟩
      · rintro ⟨e', h, rfl⟩
        cases h
        rfl
  | ok a =>
      constructor
      · intro h
        cases h
      · rintro ⟨e, h, -⟩
        cases h

theorem mapM_eq_error_iff {α β ε : Type} {f : α → Except ε β} {xs : List α} {e : ε} :
    xs.mapM f = .error e ↔ ∃ before x rest, xs = before ++ x :: rest ∧
      (∀ y ∈ before, ∃ b, f y = .ok b) ∧ f x = .error e := by
  constructor
  · intro h
    induction xs with
    | nil => cases h
    | cons x xs ih =>
        rw [List.mapM_cons] at h
        cases hx : f x with
        | error e' =>
            rw [hx] at h
            cases h
            exact ⟨[], x, xs, rfl, List.forall_mem_nil _, hx⟩
        | ok b =>
            cases hxs : xs.mapM f with
            | error e' =>
                rw [hx, hxs] at h
                cases h
                obtain ⟨before, y, rest, rfl, hbefore, hy⟩ := ih hxs
                exact ⟨x :: before, y, rest, rfl, List.forall_mem_cons.mpr ⟨⟨b, hx⟩, hbefore⟩, hy⟩
            | ok bs =>
                rw [hx, hxs] at h
                cases h
  · rintro ⟨before, x, rest, rfl, hbefore, hx⟩
    induction before with
    | nil =>
        rw [List.nil_append, List.mapM_cons, hx]
        rfl
    | cons y before ih =>
        obtain ⟨⟨b, hb⟩, hbefore⟩ := List.forall_mem_cons.mp hbefore
        rw [List.cons_append, List.mapM_cons, hb, ih hbefore]
        rfl

/-- Every fault that the computation can end with has the property. -/
def Blames {α ε : Type} (P : ε → Prop) (x : Except ε α) : Prop := ∀ e, x = .error e → P e

namespace Blames

variable {α β ε δ : Type} {P Q : ε → Prop} {x : Except ε α}

protected theorem pure (a : α) : Blames P (pure a) := fun _ h => by cases h

protected theorem throw {e : ε} (h : P e) : Blames P (throw e : Except ε α) := by
  intro e' he
  cases he
  exact h

protected theorem bind {f : α → Except ε β} (hx : Blames P x) (hf : ∀ a, Blames P (f a)) :
    Blames P (x >>= f) := by
  intro e he
  cases hx' : x with
  | error e' =>
      rw [hx'] at he
      cases he
      exact hx e hx'
  | ok a =>
      rw [hx'] at he
      exact hf a e he

theorem guard {p : Prop} [Decidable p] {e : ε} {f : β → Except ε α} (he : P e) (hx : Blames P x) :
    Blames P (if p then throw e >>= f else x) := by
  split
  · intro e' he'
    cases he'
    exact he
  · exact hx

protected theorem mapM {f : β → Except ε α} (hf : ∀ b, Blames P (f b)) (bs : List β) :
    Blames P (bs.mapM f) := by
  intro e he
  obtain ⟨-, b, -, -, -, hb⟩ := mapM_eq_error_iff.mp he
  exact hf b e hb

protected theorem mapError {Q : δ → Prop} {f : ε → δ} (hx : Blames P x) (hf : ∀ e, P e → Q (f e)) :
    Blames Q (x.mapError f) := by
  intro e he
  cases hx' : x with
  | error e' =>
      rw [hx'] at he
      cases he
      exact hf e' (hx e' hx')
  | ok a =>
      rw [hx'] at he
      cases he

theorem mono (hx : Blames P x) (h : ∀ e, P e → Q e) : Blames Q x := fun e he => h e (hx e he)

end Blames

end FrameLog
