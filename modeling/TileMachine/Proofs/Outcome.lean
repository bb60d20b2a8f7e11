import Mathlib.Data.List.Forall2

/-! Computations that may fail: when a sequence of steps succeeds, and where an error
comes from. -/
namespace TileMachine

variable {ε α β : Type}

theorem bind_eq_ok {x : Except ε α} {f : α → Except ε β} {b : β} :
    x >>= f = .ok b ↔ ∃ a, x = .ok a ∧ f a = .ok b := by
  cases x with
  | error e => simp [bind, Except.bind]
  | ok a => simp [bind, Except.bind]

theorem bind_eq_error {x : Except ε α} {f : α → Except ε β} {e : ε} :
    x >>= f = .error e ↔ x = .error e ∨ ∃ a, x = .ok a ∧ f a = .error e := by
  cases x with
  | error e => simp [bind, Except.bind]
  | ok a => simp [bind, Except.bind]

theorem map_eq_ok {f : α → β} {x : Except ε α} {b : β} :
    f <$> x = .ok b ↔ ∃ a, x = .ok a ∧ f a = b := by
  cases x with
  | error e => simp [Functor.map, Except.map]
  | ok a => simp [Functor.map, Except.map]

theorem map_eq_error {f : α → β} {x : Except ε α} {e : ε} : f <$> x = .error e ↔ x = .error e := by
  cases x with
  | error e => simp [Functor.map, Except.map]
  | ok a => simp [Functor.map, Except.map]

theorem mapError_eq_ok {ε' : Type} {f : ε → ε'} {x : Except ε α} {a : α} :
    x.mapError f = .ok a ↔ x = .ok a := by
  cases x with
  | error e => simp [Except.mapError]
  | ok b => simp [Except.mapError]

theorem mapError_bind {ε' : Type} (f : ε → ε') (x : Except ε α) (g : α → Except ε β) :
    (x >>= g).mapError f = x.mapError f >>= fun a => (g a).mapError f := by
  cases x <;> rfl

theorem mapError_map {ε' : Type} (f : ε → ε') (g : α → β) (x : Except ε α) :
    (g <$> x).mapError f = g <$> x.mapError f := by
  cases x <;> rfl

theorem mapError_id (x : Except ε α) : x.mapError id = x := by
  cases x <;> rfl

theorem mapError_mapError {ε' ε'' : Type} (f : ε → ε') (g : ε' → ε'') (x : Except ε α) :
    (x.mapError f).mapError g = x.mapError (g ∘ f) := by
  cases x <;> rfl

theorem toOption_eq_some {x : Except ε α} {a : α} : x.toOption = some a ↔ x = .ok a := by
  cases x with
  | error e => simp [Except.toOption]
  | ok b => simp [Except.toOption]

@[simp] theorem pure_eq_ok {a b : α} : (pure a : Except ε α) = .ok b ↔ a = b :=
  Except.ok.injEq a b ▸ Iff.rfl

theorem mapM_eq_ok {f : α → Except ε β} {xs : List α} {ys : List β} :
    xs.mapM f = .ok ys ↔ List.Forall₂ (fun x y => f x = .ok y) xs ys := by
  induction xs generalizing ys with
  | nil =>
    rw [List.mapM_nil, pure_eq_ok, List.forall₂_nil_left_iff]
    exact eq_comm
  | cons x xs ih =>
    rw [List.mapM_cons, bind_eq_ok, List.forall₂_cons_left_iff]
    refine exists_congr fun y => ?_
    rw [bind_eq_ok, ← exists_and_left]
    refine exists_congr fun tail => ?_
    rw [ih, pure_eq_ok, eq_comm (a := y :: tail)]

theorem mapM_eq_some {f : α → Option β} {xs : List α} {ys : List β} :
    xs.mapM f = some ys ↔ List.Forall₂ (fun x y => f x = some y) xs ys := by
  induction xs generalizing ys with
  | nil =>
    rw [List.mapM_nil, List.forall₂_nil_left_iff]
    exact Option.some_inj.trans eq_comm
  | cons x xs ih =>
    rw [List.mapM_cons, List.forall₂_cons_left_iff]
    refine Option.bind_eq_some_iff.trans (exists_congr fun y => ?_)
    rw [exists_and_left]
    refine and_congr_right fun _ => Option.bind_eq_some_iff.trans (exists_congr fun tail => ?_)
    rw [ih]
    exact and_congr_right fun _ => Option.some_inj.trans eq_comm

theorem mapError_mapM {ε' : Type} (f : ε → ε') (g : α → Except ε β) (xs : List α) :
    (xs.mapM g).mapError f = xs.mapM fun x => (g x).mapError f := by
  induction xs with
  | nil => rfl
  | cons x xs ih =>
    simp only [List.mapM_cons, mapError_bind, ih]
    rfl

theorem exists_first_of_mapM {f : α → Except ε β} {xs : List α} {e : ε}
    (h : xs.mapM f = .error e) : ∃ front a rest, xs = front ++ a :: rest ∧ f a = .error e ∧
      ∀ x ∈ front, ∃ y, f x = .ok y := by
  induction xs with
  | nil => cases h
  | cons x xs ih =>
    rw [List.mapM_cons, bind_eq_error] at h
    rcases h with hfirst | ⟨y, hy, hrest⟩
    · exact ⟨[], x, xs, rfl, hfirst, by simp⟩
    · rcases bind_eq_error.1 hrest with hlater | ⟨ys, -, hpure⟩
      · obtain ⟨front, a, rest, rfl, ha, hfront⟩ := ih hlater
        exact ⟨x :: front, a, rest, rfl, ha, List.forall_mem_cons.2 ⟨⟨y, hy⟩, hfront⟩⟩
      · cases hpure

theorem mapM_append_cons_of_error {f : α → Except ε β} {front : List α} {a : α} {e : ε}
    (hfront : ∀ x ∈ front, ∃ y, f x = .ok y) (ha : f a = .error e) (rest : List α) :
    (front ++ a :: rest).mapM f = .error e := by
  induction front with
  | nil =>
    rw [List.nil_append, List.mapM_cons, ha]
    rfl
  | cons x front ih =>
    rw [List.forall_mem_cons] at hfront
    obtain ⟨y, hy⟩ := hfront.1
    rw [List.cons_append, List.mapM_cons, hy, ih hfront.2]
    rfl

theorem mapM_eq_error {f : α → Except ε β} {xs : List α} {e : ε} (h : xs.mapM f = .error e) :
    ∃ a ∈ xs, f a = .error e := by
  obtain ⟨front, a, rest, rfl, ha, -⟩ := exists_first_of_mapM h
  exact ⟨a, by simp, ha⟩

theorem foldlM_keeps {f : β → α → Except ε β} {P : β → Prop} {xs : List α}
    (hstep : ∀ a ∈ xs, ∀ b b', P b → f b a = .ok b' → P b') {b b' : β} (hb : P b)
    (h : xs.foldlM f b = .ok b') : P b' := by
  induction xs generalizing b with
  | nil =>
    cases h
    exact hb
  | cons x xs ih =>
    rw [List.forall_mem_cons] at hstep
    rw [List.foldlM_cons, bind_eq_ok] at h
    obtain ⟨next, hnext, hrest⟩ := h
    exact ih hstep.2 (hstep.1 b next hb hnext) hrest

theorem exists_step_of_foldlM {f : β → α → Except ε β} {xs : List α} {b : β} {e : ε}
    (h : xs.foldlM f b = .error e) : ∃ front a rest b', xs = front ++ a :: rest ∧
      front.foldlM f b = .ok b' ∧ f b' a = .error e := by
  induction xs generalizing b with
  | nil => cases h
  | cons x xs ih =>
    rw [List.foldlM_cons, bind_eq_error] at h
    rcases h with hfirst | ⟨next, hnext, hrest⟩
    · exact ⟨[], x, xs, b, rfl, rfl, hfirst⟩
    · obtain ⟨front, a, rest, b', rfl, hfront, ha⟩ := ih hrest
      refine ⟨x :: front, a, rest, b', rfl, ?_, ha⟩
      rw [List.foldlM_cons, hnext]
      exact hfront

theorem foldlM_append_cons_of_error {f : β → α → Except ε β} {front : List α} {a : α} {b b' : β}
    {e : ε} (hfront : front.foldlM f b = .ok b') (ha : f b' a = .error e) (rest : List α) :
    (front ++ a :: rest).foldlM f b = .error e := by
  rw [List.foldlM_append, hfront]
  change List.foldlM f b' (a :: rest) = .error e
  rw [List.foldlM_cons, ha]
  rfl

theorem foldlM_eq_error {f : β → α → Except ε β} {xs : List α} {b : β} {e : ε}
    (h : xs.foldlM f b = .error e) : ∃ a ∈ xs, ∃ b', f b' a = .error e := by
  obtain ⟨front, a, rest, b', rfl, -, ha⟩ := exists_step_of_foldlM h
  exact ⟨a, by simp, b', ha⟩

theorem foldlM_take_of_ok {f : β → α → Except ε β} {xs : List α} {b c : β}
    (h : xs.foldlM f b = .ok c) (k : Nat) : ∃ c', (xs.take k).foldlM f b = .ok c' := by
  rw [← List.take_append_drop k xs, List.foldlM_append, bind_eq_ok] at h
  obtain ⟨c', hc', -⟩ := h
  exact ⟨c', hc'⟩

theorem array_mapM_eq_ok {f : α → Except ε β} {xs : Array α} {ys : Array β} :
    xs.mapM f = .ok ys ↔ List.Forall₂ (fun x y => f x = .ok y) xs.toList ys.toList := by
  rw [Array.mapM_eq_mapM_toList, map_eq_ok, ← mapM_eq_ok]
  constructor
  · rintro ⟨zs, hzs, rfl⟩
    exact hzs
  · exact fun h => ⟨ys.toList, h, rfl⟩

theorem exists_mem_of_mem_left {R : α → β → Prop} {as : List α} {bs : List β}
    (h : List.Forall₂ R as bs) {a : α} (ha : a ∈ as) : ∃ b ∈ bs, R a b := by
  induction h with
  | nil => contradiction
  | @cons x y xs ys hxy hrest ih =>
    rcases List.mem_cons.1 ha with rfl | ha
    · exact ⟨y, List.mem_cons_self, hxy⟩
    · obtain ⟨b, hb, hab⟩ := ih ha
      exact ⟨b, List.mem_cons_of_mem y hb, hab⟩

theorem forall₂_imp_of_mem {R S : α → β → Prop} {as : List α} {bs : List β}
    (h : List.Forall₂ R as bs) (himp : ∀ a ∈ as, ∀ b, R a b → S a b) : List.Forall₂ S as bs := by
  induction h with
  | nil => exact .nil
  | cons hab _ ih =>
    rw [List.forall_mem_cons] at himp
    exact .cons (himp.1 _ hab) (ih himp.2)

end TileMachine
