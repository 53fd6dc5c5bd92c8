import Seedbed.Action

/-! Runs of steps. The caller's state is handed from one step to the next, so the state at the end
tells which steps were made. Steps made for each item of a list either all answer, or there is a
first one that throws. -/

namespace Seedbed

namespace Action

variable {S σ α β : Type}

@[simp] theorem state_run (s : S) (w : σ) :
    (state : Action (S × σ) S) (s, w) = (.ok s, (s, w)) := rfl

@[simp] theorem change_run (f : S → S) (s : S) (w : σ) :
    change f (s, w) = (.ok (), (f s, w)) := rfl

@[simp] theorem beside_run (a : Action σ α) (s : S) (w : σ) :
    a.beside (s, w) = ((a w).1, (s, (a w).2)) := rfl

@[simp] theorem outcome_run (a : Action σ α) (w : σ) : a.outcome w = (.ok (a w).1, (a w).2) := rfl

theorem bind_ok {a : Action σ α} {f : α → Action σ β} {w w' : σ} {x : α} (h : a w = (.ok x, w')) :
    (a >>= f) w = f x w' := by
  simp only [bind, ExceptT.bind, ExceptT.mk, StateT.bind, h]
  rfl

theorem bind_error {a : Action σ α} {f : α → Action σ β} {w w' : σ} {e : Thrown}
    (h : a w = (.error e, w')) : (a >>= f) w = (.error e, w') := by
  simp only [bind, ExceptT.bind, ExceptT.mk, StateT.bind, h]
  rfl

theorem bind_pure_run (a : Action σ α) (f : α → β) (w : σ) :
    (a >>= fun x => pure (f x)) w = ((a w).1.map f, (a w).2) := by
  cases h : a w with
  | mk r w' =>
    cases r with
    | ok x => rw [bind_ok h]; rfl
    | error e => rw [bind_error h]; rfl

theorem tryCatch_ok {a : Action σ α} {handle : Thrown → Action σ α} {w w' : σ} {x : α}
    (h : a w = (.ok x, w')) : tryCatch a handle w = (.ok x, w') := by
  simp only [tryCatch, tryCatchThe, MonadExceptOf.tryCatch, ExceptT.tryCatch, ExceptT.mk, bind,
    StateT.bind, h]
  rfl

theorem tryCatch_error {a : Action σ α} {handle : Thrown → Action σ α} {w w' : σ} {e : Thrown}
    (h : a w = (.error e, w')) : tryCatch a handle w = handle e w' := by
  simp only [tryCatch, tryCatchThe, MonadExceptOf.tryCatch, ExceptT.tryCatch, ExceptT.mk, bind,
    StateT.bind, h]

@[simp] theorem adapt_run (f : Thrown → Thrown) (a : Action σ α) (w : σ) :
    (ExceptT.adapt f a : Action σ α) w = ((a w).1.mapError f, (a w).2) := rfl

theorem adapt_ok {f : Thrown → Thrown} {a : Action σ α} {w w' : σ} {x : α}
    (h : a w = (.ok x, w')) : (ExceptT.adapt f a : Action σ α) w = (.ok x, w') := by
  rw [adapt_run, h]
  rfl

theorem adapt_error {f : Thrown → Thrown} {a : Action σ α} {w w' : σ} {e : Thrown}
    (h : a w = (.error e, w')) : (ExceptT.adapt f a : Action σ α) w = (.error (f e), w') := by
  rw [adapt_run, h]
  rfl

theorem of_adapt_ok {f : Thrown → Thrown} {a : Action σ α} {w w' : σ} {x : α}
    (h : (ExceptT.adapt f a : Action σ α) w = (.ok x, w')) : a w = (.ok x, w') := by
  cases ha : a w with
  | mk r w₁ =>
    rw [adapt_run, ha] at h
    cases r with
    | ok x' => exact h
    | error e => cases h

theorem run_cases (a : Action σ α) (w : σ) :
    (∃ x w', a w = (.ok x, w')) ∨ ∃ e w', a w = (.error e, w') := by
  cases h : a w with
  | mk r w' =>
    cases r with
    | ok x => exact .inl ⟨x, w', rfl⟩
    | error e => exact .inr ⟨e, w', rfl⟩

/-- The step made for each item in order answers, the first time from `w`, and leaves `w'`. -/
inductive Each (f : α → Action σ β) : List α → σ → List β → σ → Prop
  | nil {w : σ} : Each f [] w [] w
  | cons {a : α} {as : List α} {b : β} {bs : List β} {w w₁ w₂ : σ} (head : f a w = (.ok b, w₁))
      (tail : Each f as w₁ bs w₂) : Each f (a :: as) w (b :: bs) w₂

inductive FailsAt (f : α → Action σ β) : List α → σ → List α → α → List β → Thrown → σ → Prop
  | here {a : α} {as : List α} {w w' : σ} {e : Thrown} (head : f a w = (.error e, w')) :
      FailsAt f (a :: as) w [] a [] e w'
  | later {a : α} {as done : List α} {item : α} {b : β} {bs : List β} {w w₁ w' : σ} {e : Thrown}
      (head : f a w = (.ok b, w₁)) (tail : FailsAt f as w₁ done item bs e w') :
      FailsAt f (a :: as) w (a :: done) item (b :: bs) e w'

variable {f : α → Action σ β} {as : List α} {bs : List β} {w w' : σ}

theorem Each.length (h : Each f as w bs w') : bs.length = as.length := by
  induction h with
  | nil => rfl
  | cons _ _ ih => rw [List.length_cons, List.length_cons, ih]

theorem FailsAt.split {done : List α} {a : α} {e : Thrown} (h : FailsAt f as w done a bs e w') :
    (∃ rest, as = done ++ a :: rest) ∧ ∃ w₁, Each f done w bs w₁ ∧ f a w₁ = (.error e, w') := by
  induction h with
  | here head => exact ⟨⟨_, rfl⟩, _, .nil, head⟩
  | later head _ ih =>
    obtain ⟨⟨rest, rfl⟩, w₁, hd, he⟩ := ih
    exact ⟨⟨rest, rfl⟩, w₁, .cons head hd, he⟩

theorem Each.failsAt {done rest : List α} {a : α} {w₁ : σ} {e : Thrown} (h : Each f done w bs w₁)
    (he : f a w₁ = (.error e, w')) : FailsAt f (done ++ a :: rest) w done a bs e w' := by
  induction h with
  | nil => exact .here he
  | cons head _ ih => exact .later head (ih he)

theorem Each.exists_of_mem_zip {p : α × β} (h : Each f as w bs w') (hp : p ∈ as.zip bs) :
    ∃ w₁ w₂, f p.1 w₁ = (.ok p.2, w₂) := by
  induction h with
  | nil => cases hp
  | cons head _ ih =>
    rw [List.zip_cons_cons, List.mem_cons] at hp
    rcases hp with rfl | hp
    · exact ⟨_, _, head⟩
    · exact ih hp

theorem Each.exists_of_mem {a : α} (h : Each f as w bs w') (ha : a ∈ as) :
    ∃ b w₁ w₂, f a w₁ = (.ok b, w₂) := by
  induction h with
  | nil => cases ha
  | cons head _ ih =>
    rcases List.mem_cons.1 ha with rfl | ha
    · exact ⟨_, _, _, head⟩
    · exact ih ha

theorem each_or_fails (f : α → Action σ β) (as : List α) (w : σ) :
    (∃ bs w', Each f as w bs w') ∨ ∃ done a bs e w', FailsAt f as w done a bs e w' := by
  induction as generalizing w with
  | nil => exact .inl ⟨[], w, .nil⟩
  | cons a as ih =>
    rcases run_cases (f a) w with ⟨b, w₁, h⟩ | ⟨e, w₁, h⟩
    · rcases ih w₁ with ⟨bs, w', ht⟩ | ⟨done, a', bs, e, w', ht⟩
      · exact .inl ⟨b :: bs, w', .cons h ht⟩
      · exact .inr ⟨a :: done, a', b :: bs, e, w', .later h ht⟩
    · exact .inr ⟨[], a, [], e, w₁, .here h⟩

end Action

end Seedbed
