/-! Computations that may fail.

What a computation that succeeds has done (`bind_eq_ok`, `map_of_mapM`), and what is known of the
errors of one that need not (`Errs`). With a state, two steps in a row end in the first or go
through both (`bind_cases`). -/
namespace PropShear

theorem bind_eq_ok {ε α β : Type} {x : Except ε α} {f : α → Except ε β} {b : β}
    (h : (x >>= f) = .ok b) : ∃ a, x = .ok a ∧ f a = .ok b := by
  cases x with
  | error err => cases h
  | ok a => exact ⟨a, rfl, h⟩

/-- The computation ends with a result. -/
def Succeeds {ε α : Type} (x : Except ε α) : Prop := ∃ a, x = .ok a

/-- A run over a list that ends gives the results of its steps. -/
theorem map_of_mapM {ε α β : Type} {f : α → Except ε β} {l : List α} {bs : List β}
    (h : l.mapM f = .ok bs) : l.map f = bs.map .ok := by
  induction l generalizing bs with
  | nil =>
    cases h
    rfl
  | cons a rest ih =>
    rw [List.mapM_cons] at h
    obtain ⟨b, hb, hrest⟩ := bind_eq_ok h
    obtain ⟨more, hmore, hbs⟩ := bind_eq_ok hrest
    cases hbs
    rw [List.map_cons, List.map_cons, hb, ih hmore]

theorem mapM_of_map {ε α β : Type} {f : α → Except ε β} {l : List α} {bs : List β}
    (h : l.map f = bs.map .ok) : l.mapM f = .ok bs := by
  induction l generalizing bs with
  | nil =>
    cases bs with
    | nil => rfl
    | cons b more => cases h
  | cons a rest ih =>
    cases bs with
    | nil => cases h
    | cons b more =>
      rw [List.map_cons, List.map_cons, List.cons.injEq] at h
      rw [List.mapM_cons, h.1, ih h.2]
      rfl

/-- Steps that each succeed under a condition succeed in a row under all the conditions. -/
theorem mapM_eq_ok {ε α β : Type} {f : α → Except ε β} {P : α → Prop} {g : α → β}
    (h : ∀ {a b}, f a = .ok b ↔ P a ∧ b = g a) {l : List α} {bs : List β} :
    l.mapM f = .ok bs ↔ (∀ a ∈ l, P a) ∧ bs = l.map g := by
  induction l generalizing bs with
  | nil => exact ⟨fun h => ⟨nofun, (Except.ok.inj h).symm⟩, fun h => h.2 ▸ rfl⟩
  | cons a rest ih =>
    rw [List.mapM_cons, List.forall_mem_cons, List.map_cons]
    constructor
    · intro hall
      obtain ⟨b, hb, hrest⟩ := bind_eq_ok hall
      obtain ⟨more, hmore, hbs⟩ := bind_eq_ok hrest
      cases hbs
      obtain ⟨ha, rfl⟩ := h.mp hb
      obtain ⟨hothers, rfl⟩ := ih.mp hmore
      exact ⟨⟨ha, hothers⟩, rfl⟩
    · rintro ⟨⟨ha, hothers⟩, rfl⟩
      rw [h.mpr ⟨ha, rfl⟩, ih.mpr ⟨hothers, rfl⟩]
      rfl

/-- Every error that the computation may end with has a property. -/
def Errs {ε α : Type} (P : ε → Prop) (x : Except ε α) : Prop := ∀ e, x = .error e → P e

namespace Errs
variable {ε α β : Type} {P Q : ε → Prop} {x : Except ε α}

theorem ok (a : α) : Errs P (.ok a) := nofun

theorem bind {f : α → Except ε β} (hx : Errs P x) (hf : ∀ a, x = .ok a → Errs P (f a)) :
    Errs P (x >>= f) := by
  cases x with
  | error e =>
    intro e' h
    cases h
    exact hx e rfl
  | ok a => exact hf a rfl

theorem mono (hx : Errs P x) (h : ∀ e, P e → Q e) : Errs Q x := fun e he => h e (hx e he)

theorem mapM {f : α → Except ε β} {l : List α} (h : ∀ a ∈ l, Errs P (f a)) :
    Errs P (l.mapM f) := by
  induction l with
  | nil => exact ok []
  | cons a rest ih =>
    rw [List.mapM_cons]
    refine (h a List.mem_cons_self).bind fun b _ => ?_
    exact (ih fun c hc => h c (List.mem_cons_of_mem a hc)).bind fun bs _ => ok (b :: bs)

theorem succeeds (hx : Errs P x) (h : ∀ e, ¬ P e) : Succeeds x := by
  cases x with
  | error e => exact absurd (hx e rfl) (h e)
  | ok a => exact ⟨a, rfl⟩

end Errs

/-- Steps that all succeed give a list of their results. -/
theorem mapM_succeeds {ε α β : Type} {f : α → Except ε β} {l : List α}
    (h : ∀ a ∈ l, Succeeds (f a)) : ∃ bs, l.mapM f = .ok bs ∧ l.map f = bs.map .ok := by
  have herrs : Errs (fun _ => False) (l.mapM f) := .mapM fun a ha e he => by
    obtain ⟨b, hb⟩ := h a ha
    rw [hb] at he
    cases he
  obtain ⟨bs, hbs⟩ := herrs.succeeds fun _ => id
  exact ⟨bs, hbs, map_of_mapM hbs⟩

/-- Computations that give the same apart from details both fail or both succeed. -/
theorem cases_of_map_eq {ε α β : Type} {x y : Except ε α} {g : α → β} (h : y.map g = x.map g) :
    (∃ e, x = .error e) ∨ ∃ a b, x = .ok a ∧ y = .ok b ∧ g b = g a := by
  cases x with
  | error e => exact .inl ⟨e, rfl⟩
  | ok a =>
    cases y with
    | error e => cases h
    | ok b => exact .inr ⟨a, b, rfl, rfl, Except.ok.inj h⟩

/-- Steps that give the same apart from details give the same in a row. -/
theorem mapM_map_congr {ε α β γ : Type} {f f' : α → Except ε β} {g : β → γ} {l : List α}
    (h : ∀ a ∈ l, (f' a).map g = (f a).map g) :
    (l.mapM f').map (List.map g) = (l.mapM f).map (List.map g) := by
  have hcons : ∀ (x : Except ε β) (xs : Except ε (List β)),
      (x >>= fun b => xs >>= fun bs => pure (b :: bs)).map (List.map g) =
        (x.map g >>= fun c => xs.map (List.map g) >>= fun cs => pure (c :: cs)) := by
    intro x xs
    cases x with
    | error e => rfl
    | ok b =>
      cases xs with
      | error e => rfl
      | ok bs => rfl
  induction l with
  | nil => rfl
  | cons a rest ih =>
    rw [List.forall_mem_cons] at h
    rw [List.mapM_cons, List.mapM_cons, hcons, hcons, h.1, ih h.2]

/-- Steps in a row fail exactly if one of them does. -/
theorem exists_mapM_error_iff {ε α β : Type} {f : α → Except ε β} {l : List α} :
    (∃ e, l.mapM f = .error e) ↔ ∃ a ∈ l, ∃ e, f a = .error e := by
  constructor
  · rintro ⟨e, he⟩
    have herrs : Errs (fun e => ∃ a ∈ l, ∃ e, f a = .error e) (l.mapM f) :=
      .mapM fun a ha e he => ⟨a, ha, e, he⟩
    exact herrs e he
  · rintro ⟨a, ha, e, he⟩
    cases hall : l.mapM f with
    | error e => exact ⟨e, rfl⟩
    | ok bs =>
      have hmem : f a ∈ bs.map .ok := map_of_mapM hall ▸ List.mem_map_of_mem ha
      obtain ⟨b, -, hb⟩ := List.mem_map.mp hmem
      rw [he] at hb
      cases hb

/-- Steps are taken in a row, each with a result that it may have, up to the first error. -/
inductive Collects {ε α β : Type} (P : α → Except ε β → Prop) :
    List α → Except ε (List β) → Prop
  | nil : Collects P [] (.ok [])
  | stop {a : α} {rest : List α} {e : ε} (h : P a (.error e)) : Collects P (a :: rest) (.error e)
  | cons {a : α} {rest : List α} {b : β} {r : Except ε (List β)} (h : P a (.ok b))
      (hrest : Collects P rest r) : Collects P (a :: rest) (r.map (b :: ·))

namespace Collects
variable {ε α β : Type} {P Q : α → Except ε β → Prop} {l : List α}

theorem mono {r : Except ε (List β)} (h : Collects P l r) (hPQ : ∀ {a r}, P a r → Q a r) :
    Collects Q l r := by
  induction h with
  | nil => exact .nil
  | stop h => exact .stop (hPQ h)
  | cons h _ ih => exact .cons (hPQ h) ih

/-- If each step has one result only, this is what the steps in a row give. -/
theorem eq_mapM {f : α → Except ε β} {r : Except ε (List β)} (h : Collects P l r)
    (hP : ∀ a ∈ l, ∀ {r}, P a r → r = f a) : r = l.mapM f := by
  induction h with
  | nil => rfl
  | stop h =>
    rw [List.mapM_cons, ← hP _ List.mem_cons_self h]
    rfl
  | @cons a rest b r h _ ih =>
    rw [List.mapM_cons, ← hP a List.mem_cons_self h,
      ih fun c hc => hP c (List.mem_cons_of_mem a hc)]
    cases rest.mapM f with
    | error e => rfl
    | ok bs => rfl

end Collects

/-- A result is found by running what gives it. -/
theorem exists_ok {ε α : Type} {x : Except ε α} {p : α → Bool} (h : x.toOption.any p = true) :
    ∃ a, x = .ok a ∧ p a = true := by
  cases x with
  | error e => cases h
  | ok a => exact ⟨a, rfl, h⟩

theorem exists_error {ε α : Type} {x : Except ε α} (h : x.toOption.isNone = true) :
    ∃ e, x = .error e := by
  cases x with
  | error e => exact ⟨e, rfl⟩
  | ok a => cases h

/-! ### With a state -/

section State

variable {ε σ α β : Type} {x : ExceptT ε (StateM σ) α} {f : α → ExceptT ε (StateM σ) β} {s t : σ}

theorem run_bind_ok {a : α} (h : x.run s = (.ok a, t)) : (x >>= f).run s = (f a).run t := by
  show ExceptT.bindCont f (x.run s).1 (x.run s).2 = _
  rw [h]
  rfl

theorem run_bind_error {e : ε} (h : x.run s = (.error e, t)) :
    (x >>= f).run s = (.error e, t) := by
  show ExceptT.bindCont f (x.run s).1 (x.run s).2 = _
  rw [h]
  rfl

/-- A run of two parts ends in its first part or goes through both. -/
theorem bind_cases {r : Except ε β} (h : (x >>= f).run s = (r, t)) :
    (∃ a u, x.run s = (.ok a, u) ∧ (f a).run u = (r, t)) ∨
      ∃ e, x.run s = (.error e, t) ∧ r = .error e := by
  rcases hx : x.run s with ⟨first, u⟩
  cases first with
  | ok a =>
    rw [run_bind_ok hx] at h
    exact .inl ⟨a, u, rfl, h⟩
  | error e =>
    rw [run_bind_error hx] at h
    cases h
    exact .inr ⟨e, rfl, rfl⟩

theorem fst_run_bind_pure (x : ExceptT ε (StateM σ) α) (g : α → β) (s : σ) :
    ((x >>= fun a => pure (g a)).run s).1 = (x.run s).1.map g := by
  rcases hx : x.run s with ⟨first, t⟩
  cases first with
  | ok a =>
    rw [run_bind_ok hx]
    rfl
  | error e =>
    rw [run_bind_error hx]
    rfl

theorem snd_run_bind_pure (x : ExceptT ε (StateM σ) α) (g : α → β) (s : σ) :
    ((x >>= fun a => pure (g a)).run s).2 = (x.run s).2 := by
  rcases hx : x.run s with ⟨first, t⟩
  cases first with
  | ok a =>
    rw [run_bind_ok hx]
    rfl
  | error e => rw [run_bind_error hx]

theorem run_get_bind {g : σ → ExceptT ε (StateM σ) β} : (get >>= g).run s = (g s).run s :=
  run_bind_ok rfl

end State

end PropShear
