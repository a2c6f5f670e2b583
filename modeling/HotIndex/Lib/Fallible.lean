import Mathlib.Data.List.Basic

/-!
# Fallible Steps

What the success of a composed computation says about its parts: of a bind, of a map over
a list, and of a loop that carries a state (`foldlM_induction`).
-/

namespace HotIndex.Lib

universe u v

theorem bind_eq_ok_iff {ε : Type u} {α β : Type v} {x : Except ε α} {f : α → Except ε β} {b : β} :
    x >>= f = .ok b ↔ ∃ a, x = .ok a ∧ f a = .ok b := by
  cases x with
  | error e => exact ⟨nofun, nofun⟩
  | ok a => exact ⟨fun h => ⟨a, rfl, h⟩, fun ⟨_, ha, h⟩ => Except.ok.inj ha ▸ h⟩

/-- Collecting results that are all `Ok`. -/
theorem mapM_eq_ok {ε α β : Type} {f : α → Except ε β} {g : α → β} {l : List α}
    (h : ∀ a ∈ l, f a = .ok (g a)) : l.mapM f = .ok (l.map g) := by
  induction l with
  | nil => rfl
  | cons a l ih =>
    have hl := ih (fun b hb => h b (List.mem_cons_of_mem _ hb))
    rw [List.mapM_cons, h a List.mem_cons_self, hl, List.map_cons]
    rfl

/-- A map over a list whose calls all return something returns as many. -/
theorem exists_mapM_eq_ok {ε α β : Type} {f : α → Except ε β} {l : List α}
    (h : ∀ a ∈ l, ∃ b, f a = .ok b) : ∃ bs, l.mapM f = .ok bs ∧ bs.length = l.length := by
  induction l with
  | nil => exact ⟨[], rfl, rfl⟩
  | cons a l ih =>
    obtain ⟨b, hb⟩ := h a List.mem_cons_self
    obtain ⟨bs, hbs, hlength⟩ := ih (fun a ha => h a (List.mem_cons_of_mem _ ha))
    refine ⟨b :: bs, ?_, by simp [hlength]⟩
    rw [List.mapM_cons, hb, hbs]
    rfl

/-- A map over a list returns exactly if each of its calls does. -/
theorem exists_mapM_eq_ok_iff {ε α β : Type} {f : α → Except ε β} {l : List α} :
    (∃ bs, l.mapM f = .ok bs) ↔ ∀ a ∈ l, ∃ b, f a = .ok b := by
  refine ⟨?_, fun h => (exists_mapM_eq_ok h).imp fun _ => And.left⟩
  induction l with
  | nil => exact fun _ => nofun
  | cons a l ih =>
    -- a list that succeeds does so at its head and behind it
    rintro ⟨bs, hbs⟩
    rw [List.mapM_cons] at hbs
    rcases bind_eq_ok_iff.1 hbs with ⟨b, hb, hrest⟩
    rcases bind_eq_ok_iff.1 hrest with ⟨bs, hbs, _⟩
    exact List.forall_mem_cons.2 ⟨⟨b, hb⟩, ih ⟨bs, hbs⟩⟩

/-- A map over a list returns as many results as there are items. -/
theorem length_of_mapM_eq_ok {ε α β : Type} {f : α → Except ε β} {l : List α} {bs : List β}
    (h : l.mapM f = .ok bs) : bs.length = l.length := by
  induction l generalizing bs with
  | nil =>
    cases h
    rfl
  | cons a l ih =>
    rw [List.mapM_cons] at h
    rcases bind_eq_ok_iff.1 h with ⟨b, _, h⟩
    rcases bind_eq_ok_iff.1 h with ⟨rest, hrest, h⟩
    cases h
    simp [ih hrest]

/-- A loop of checks passes exactly if each check does. -/
theorem forM_eq_ok_iff {ε α : Type} {f : α → Except ε PUnit} {l : List α} {u : PUnit} :
    l.forM f = .ok u ↔ ∀ a ∈ l, f a = .ok () := by
  induction l with
  | nil => exact ⟨fun _ => nofun, fun _ => rfl⟩
  | cons a l ih =>
    show (f a >>= fun _ => l.forM f) = .ok u ↔ _
    rw [bind_eq_ok_iff, List.forall_mem_cons, ← ih]
    constructor
    · rintro ⟨⟨⟩, ha, hrest⟩
      exact ⟨ha, hrest⟩
    · rintro ⟨ha, hrest⟩
      exact ⟨(), ha, hrest⟩

@[simp] theorem mapError_eq_ok_iff {ε ε' α : Type} {x : Except ε α} {f : ε → ε'} {a : α} :
    x.mapError f = .ok a ↔ x = .ok a := by
  cases x with
  | error e => exact ⟨nofun, nofun⟩
  | ok b => simp [Except.mapError]

/-- **Loop rule.** A property of the items consumed so far and the state holds after a loop
that succeeds, if it holds at its start and every successful step keeps it. -/
theorem foldlM_induction {ε α σ : Type*} {step : σ → α → Except ε σ} {P : List α → σ → Prop}
    {l : List α} {s s' : σ} (h : l.foldlM step s = .ok s') (hstart : P [] s)
    (hstep : ∀ done a t t', a ∈ l → P done t → step t a = .ok t' → P (done ++ [a]) t') :
    P l s' := by
  -- generalized to a loop that is resumed behind `done`
  have hloop : ∀ (rest done : List α) (t : σ), (∀ a ∈ rest, a ∈ l) → P done t →
      rest.foldlM step t = .ok s' → P (done ++ rest) s' := by
    intro rest
    induction rest with
    | nil =>
      intro done t _ hP hfold
      cases hfold
      simpa using hP
    | cons a rest ih =>
      intro done t hmem hP hfold
      rw [List.foldlM_cons] at hfold
      obtain ⟨t', hfirst, hrest⟩ := bind_eq_ok_iff.1 hfold
      have hdone := hstep done a t t' (hmem a List.mem_cons_self) hP hfirst
      have := ih (done ++ [a]) t' (fun b hb => hmem b (List.mem_cons_of_mem _ hb)) hdone hrest
      simpa using this
  simpa using hloop l [] s (fun _ ha => ha) hstart h

/-- **Totality of a loop.** A loop succeeds if a property of the items to come and the state
makes every step succeed, and is kept by it. -/
theorem exists_foldlM_eq_ok {ε α σ : Type*} {step : σ → α → Except ε σ} {P : List α → σ → Prop}
    {l : List α} {s : σ} (hstart : P l s)
    (hstep : ∀ a rest t, P (a :: rest) t → ∃ t', step t a = .ok t' ∧ P rest t') :
    ∃ s', l.foldlM step s = .ok s' := by
  induction l generalizing s with
  | nil => exact ⟨s, rfl⟩
  | cons a l ih =>
    -- one step keeps the invariant for the list that is left
    obtain ⟨t, ht, hrest⟩ := hstep a l s hstart
    obtain ⟨s', hs'⟩ := ih hrest
    refine ⟨s', ?_⟩
    rw [List.foldlM_cons, ht]
    exact hs'

/-- A loop whose steps all succeed succeeds. -/
theorem foldlM_eq_ok {ε α σ : Type*} {step : σ → α → Except ε σ} {exact : σ → α → σ} {l : List α}
    (hstep : ∀ a ∈ l, ∀ s, step s a = .ok (exact s a)) (s : σ) :
    l.foldlM step s = .ok (l.foldl exact s) := by
  induction l generalizing s with
  | nil => rfl
  | cons a l ih =>
    rw [List.foldlM_cons, hstep a List.mem_cons_self s, List.foldl_cons]
    exact ih (fun b hb => hstep b (List.mem_cons_of_mem _ hb)) _

/-- A loop whose successful steps are those of a function folds that function. -/
theorem foldlM_eq_foldl {ε α σ : Type*} {step : σ → α → Except ε σ} {exact : σ → α → σ}
    (hstep : ∀ s a s', step s a = .ok s' → s' = exact s a) {l : List α} {s s' : σ}
    (h : l.foldlM step s = .ok s') : s' = l.foldl exact s := by
  induction l generalizing s with
  | nil =>
    cases h
    rfl
  | cons a l ih =>
    rw [List.foldlM_cons] at h
    obtain ⟨t, ht, hrest⟩ := bind_eq_ok_iff.1 h
    rw [ih hrest, hstep s a t ht, List.foldl_cons]

end HotIndex.Lib
