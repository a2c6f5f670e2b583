import Mathlib.Data.List.Infix
import Mathlib.Tactic

/-!
# Programs over a Store

A program reads a store and changes it by atomic steps. It may be cut off between any two
of them, so its meaning is its result together with the list of the steps it takes.

A specification (`Runs`) says three things about a run: what holds at every point where it
can be cut off, with which errors it can end, and what holds of a result. One rule for each
way to build a program reduces the specification of a whole to those of its parts.
-/

namespace HotIndex.Lib

/-! ## Stores and steps -/

/-- A store that atomic steps change. -/
class Store (σ : Type) (τ : outParam Type) where
  apply : σ → τ → σ

/-- A store together with the steps that were taken on it. -/
structure Traced (σ τ : Type) where
  store : σ
  taken : List τ

section Programs

variable {σ τ ε α β : Type} [Store σ τ]

/-- The store after some steps. -/
def Store.applyAll (store : σ) (steps : List τ) : σ := steps.foldl Store.apply store

@[simp] theorem Store.applyAll_nil (store : σ) : Store.applyAll store ([] : List τ) = store := rfl

@[simp] theorem Store.applyAll_singleton (store : σ) (step : τ) :
    Store.applyAll store [step] = Store.apply store step := rfl

theorem Store.applyAll_append (store : σ) (first second : List τ) :
    Store.applyAll store (first ++ second) =
      Store.applyAll (Store.applyAll store first) second :=
  List.foldl_append

/-- Some more steps. -/
def Traced.after (at_ : Traced σ τ) (steps : List τ) : Traced σ τ where
  store := Store.applyAll at_.store steps
  taken := at_.taken ++ steps

@[simp] theorem Traced.after_nil (at_ : Traced σ τ) : at_.after [] = at_ := by
  simp [Traced.after]

theorem Traced.after_append (at_ : Traced σ τ) (first second : List τ) :
    at_.after (first ++ second) = (at_.after first).after second := by
  simp [Traced.after, Store.applyAll_append]

@[simp] theorem Traced.store_after_singleton (at_ : Traced σ τ) (step : τ) :
    (at_.after [step]).store = Store.apply at_.store step := rfl

@[simp] theorem Traced.taken_after (at_ : Traced σ τ) (steps : List τ) :
    (at_.after steps).taken = at_.taken ++ steps := rfl

/-! ## Programs -/

/-- How a program ends, and the steps it takes until then. -/
structure Outcome (τ ε α : Type) where
  result : Except ε α
  steps : List τ

end Programs

/-- A program over a store `σ` with steps `τ` and errors `ε`. -/
def StoreM (σ τ ε α : Type) := σ → Outcome τ ε α

namespace StoreM

variable {σ τ ε α β : Type}

protected def pure (a : α) : StoreM σ τ ε α := fun _ => ⟨.ok a, []⟩

/-- End with an error. -/
def fail (error : ε) : StoreM σ τ ε α := fun _ => ⟨.error error, []⟩

/-- Read the store. -/
def read : StoreM σ τ ε σ := fun store => ⟨.ok store, []⟩

/-- Take a step. -/
def perform (step : τ) : StoreM σ τ ε Unit := fun _ => ⟨.ok (), [step]⟩

/-- A computation that does not look at the store. -/
def ofExcept (x : Except ε α) : StoreM σ τ ε α := fun _ => ⟨x, []⟩

variable [Store σ τ]

/-- The second program starts where the first ends, unless that is an error. -/
protected def bind (x : StoreM σ τ ε α) (f : α → StoreM σ τ ε β) : StoreM σ τ ε β :=
  fun store =>
    match (x store).result with
    | .error error => ⟨.error error, (x store).steps⟩
    | .ok a =>
      let rest := f a (Store.applyAll store (x store).steps)
      ⟨rest.result, (x store).steps ++ rest.steps⟩

instance : Monad (StoreM σ τ ε) where
  pure := StoreM.pure
  bind := StoreM.bind

/-! ## Running -/

theorem bind_of_ok {x : StoreM σ τ ε α} {f : α → StoreM σ τ ε β} {store : σ} {a : α}
    {steps : List τ} (h : x store = ⟨.ok a, steps⟩) :
    (x >>= f) store = ⟨(f a (Store.applyAll store steps)).result,
      steps ++ (f a (Store.applyAll store steps)).steps⟩ := by
  show StoreM.bind x f store = _
  simp only [StoreM.bind, h]

theorem bind_assoc {γ : Type} (x : StoreM σ τ ε α) (f : α → StoreM σ τ ε β)
    (g : β → StoreM σ τ ε γ) : (x >>= f) >>= g = x >>= fun a => f a >>= g := by
  funext store
  show StoreM.bind (StoreM.bind x f) g store = StoreM.bind x (fun a => StoreM.bind (f a) g) store
  unfold StoreM.bind
  -- each part starts from the store that the parts before it leave
  cases (x store).result with
  | error error => rfl
  | ok a =>
    simp only
    cases (f a (Store.applyAll store (x store).steps)).result with
    | error error => rfl
    | ok b => simp only [Store.applyAll_append, List.append_assoc]

theorem read_bind_apply (f : σ → StoreM σ τ ε β) (store : σ) :
    ((StoreM.read : StoreM σ τ ε σ) >>= f) store = f store store := rfl

theorem ofExcept_bind_apply (x : Except ε α) (f : α → StoreM σ τ ε β) (store : σ) :
    (StoreM.ofExcept x >>= f) store =
      match x with
      | .error error => ⟨.error error, []⟩
      | .ok a => f a store := by
  cases x <;> rfl

end StoreM

/-! ## Specifications -/

section Runs

variable {σ τ ε α β : Type} [Store σ τ]

/-- From `at_`, the program passes only through points with `cut`, ends only with errors
with `err`, and ends well only with `post`. -/
structure Runs (cut : Traced σ τ → Prop) (err : ε → Prop) (x : StoreM σ τ ε α)
    (at_ : Traced σ τ) (post : α → Traced σ τ → Prop) : Prop where
  cuts : ∀ steps, steps <+: (x at_.store).steps → cut (at_.after steps)
  errors : ∀ error, (x at_.store).result = .error error → err error
  result : ∀ a, (x at_.store).result = .ok a → post a (at_.after (x at_.store).steps)

namespace Runs

variable {cut : Traced σ τ → Prop} {err : ε → Prop} {at_ : Traced σ τ}

theorem cut_start {x : StoreM σ τ ε α} {post : α → Traced σ τ → Prop}
    (h : Runs cut err x at_ post) : cut at_ := by
  simpa using h.cuts [] List.nil_prefix

theorem cut_end {x : StoreM σ τ ε α} {post : α → Traced σ τ → Prop}
    (h : Runs cut err x at_ post) : cut (at_.after (x at_.store).steps) :=
  h.cuts _ (List.prefix_refl _)

theorem pure {a : α} {post : α → Traced σ τ → Prop} (hcut : cut at_) (hpost : post a at_) :
    Runs cut err (Pure.pure a) at_ post := by
  refine ⟨?_, nofun, ?_⟩
  · intro steps hsteps
    rw [List.prefix_nil.1 hsteps, Traced.after_nil]
    exact hcut
  · rintro b ⟨⟩
    rw [show ((Pure.pure a : StoreM σ τ ε α) at_.store).steps = [] from rfl, Traced.after_nil]
    exact hpost

theorem fail {error : ε} {post : α → Traced σ τ → Prop} (hcut : cut at_) (herr : err error) :
    Runs cut err (StoreM.fail error) at_ post := by
  refine ⟨?_, ?_, nofun⟩
  · intro steps hsteps
    rw [List.prefix_nil.1 hsteps, Traced.after_nil]
    exact hcut
  · rintro _ ⟨⟩
    exact herr

theorem read {post : σ → Traced σ τ → Prop} (hcut : cut at_) (hpost : post at_.store at_) :
    Runs cut err (StoreM.read : StoreM σ τ ε σ) at_ post := by
  refine ⟨?_, nofun, ?_⟩
  · intro steps hsteps
    rw [List.prefix_nil.1 hsteps, Traced.after_nil]
    exact hcut
  · rintro _ ⟨⟩
    rw [show ((StoreM.read : StoreM σ τ ε σ) at_.store).steps = [] from rfl, Traced.after_nil]
    exact hpost

theorem perform {step : τ} {post : Unit → Traced σ τ → Prop} (hbefore : cut at_)
    (hafter : cut (at_.after [step])) (hpost : post () (at_.after [step])) :
    Runs cut err (StoreM.perform step : StoreM σ τ ε Unit) at_ post := by
  refine ⟨?_, nofun, fun _ _ => hpost⟩
  intro steps hsteps
  -- there are two cuts, before the step and behind it
  rcases steps with _ | ⟨first, rest⟩
  · simpa using hbefore
  · obtain ⟨rfl, hrest⟩ := List.cons_prefix_cons.1 hsteps
    rw [List.prefix_nil.1 hrest]
    exact hafter

theorem ofExcept {x : Except ε α} {post : α → Traced σ τ → Prop} (hcut : cut at_)
    (herr : ∀ error, x = .error error → err error) (hpost : ∀ a, x = .ok a → post a at_) :
    Runs cut err (StoreM.ofExcept x) at_ post := by
  refine ⟨?_, herr, ?_⟩
  · intro steps hsteps
    rw [List.prefix_nil.1 hsteps, Traced.after_nil]
    exact hcut
  · intro a ha
    rw [show ((StoreM.ofExcept x : StoreM σ τ ε α) at_.store).steps = [] from rfl,
      Traced.after_nil]
    exact hpost a ha

/-- **Sequencing.** The second program runs from every point where the first may end. -/
theorem bind {x : StoreM σ τ ε α} {f : α → StoreM σ τ ε β} {mid : α → Traced σ τ → Prop}
    {post : β → Traced σ τ → Prop} (hx : Runs cut err x at_ mid)
    (hf : ∀ a next, cut next → mid a next → Runs cut err (f a) next post) :
    Runs cut err (x >>= f) at_ post := by
  show Runs cut err (StoreM.bind x f) at_ post
  cases hresult : (x at_.store).result with
  | error error =>
    -- the second program does not run: the steps and the error are those of the first
    have hbind : StoreM.bind x f at_.store = ⟨.error error, (x at_.store).steps⟩ := by
      simp only [StoreM.bind, hresult]
    refine ⟨?_, ?_, ?_⟩
    · intro steps hsteps
      rw [hbind] at hsteps
      exact hx.cuts steps hsteps
    · rw [hbind]
      rintro _ ⟨⟩
      exact hx.errors error hresult
    · rw [hbind]
      exact nofun
  | ok a =>
    set first := (x at_.store).steps with hfirst
    -- the end of the first program is itself a cut, so the second may start there
    have hrest := hf a (at_.after first) hx.cut_end (hx.result a hresult)
    have hbind : StoreM.bind x f at_.store =
        ⟨(f a (at_.after first).store).result,
          first ++ (f a (at_.after first).store).steps⟩ := by
      simp only [StoreM.bind, hresult]
      rfl
    refine ⟨?_, ?_, ?_⟩
    · -- a cut falls into the first program or into the second
      intro steps hsteps
      rw [hbind] at hsteps
      rcases List.prefix_or_prefix_of_prefix hsteps (List.prefix_append _ _) with h | ⟨rest, rfl⟩
      · exact hx.cuts steps h
      · rw [Traced.after_append]
        exact hrest.cuts rest ((List.prefix_append_right_inj _).1 hsteps)
    · rw [hbind]
      exact hrest.errors
    · intro b hb
      rw [hbind] at hb ⊢
      rw [Traced.after_append]
      exact hrest.result b hb

theorem read_bind {f : σ → StoreM σ τ ε β} {post : β → Traced σ τ → Prop} (hcut : cut at_)
    (h : Runs cut err (f at_.store) at_ post) :
    Runs cut err (StoreM.read >>= f) at_ post := by
  have hread : Runs cut err (StoreM.read : StoreM σ τ ε σ) at_
      (fun store next => store = at_.store ∧ next = at_) := read hcut ⟨rfl, rfl⟩
  refine hread.bind ?_
  rintro _ _ - ⟨rfl, rfl⟩
  exact h

theorem perform_bind {step : τ} {f : Unit → StoreM σ τ ε β} {post : β → Traced σ τ → Prop}
    (hcut : cut at_) (h : Runs cut err (f ()) (at_.after [step]) post) :
    Runs cut err (StoreM.perform step >>= f) at_ post := by
  have hperform : Runs cut err (StoreM.perform step : StoreM σ τ ε Unit) at_
      (fun _ next => next = at_.after [step]) := perform hcut h.cut_start rfl
  refine hperform.bind ?_
  rintro _ _ - rfl
  exact h

theorem ofExcept_bind {x : Except ε α} {f : α → StoreM σ τ ε β} {post : β → Traced σ τ → Prop}
    (hcut : cut at_) (herr : ∀ error, x = .error error → err error)
    (h : ∀ a, x = .ok a → Runs cut err (f a) at_ post) :
    Runs cut err (StoreM.ofExcept x >>= f) at_ post := by
  have hx : Runs cut err (StoreM.ofExcept x) at_ (fun a next => x = .ok a ∧ next = at_) :=
    ofExcept hcut herr (fun a ha => ⟨ha, rfl⟩)
  refine hx.bind ?_
  rintro a _ - ⟨ha, rfl⟩
  exact h a ha

/-- Of any program, it can be said that it runs. -/
theorem any (x : StoreM σ τ ε α) :
    Runs (fun _ => True) (fun _ => True) x at_ (fun _ _ => True) :=
  ⟨fun _ _ => trivial, fun _ _ => trivial, fun _ _ => trivial⟩

/-- Weaken the postcondition. -/
theorem imp {x : StoreM σ τ ε α} {post post' : α → Traced σ τ → Prop}
    (h : Runs cut err x at_ post) (hpost : ∀ a next, cut next → post a next → post' a next) :
    Runs cut err x at_ post' :=
  ⟨h.cuts, h.errors, fun a ha => hpost a _ h.cut_end (h.result a ha)⟩

/-- Weaken what holds at the cuts. -/
theorem mono {cut' : Traced σ τ → Prop} {x : StoreM σ τ ε α} {post : α → Traced σ τ → Prop}
    (h : Runs cut err x at_ post) (hcut : ∀ point, cut point → cut' point) :
    Runs cut' err x at_ post :=
  ⟨fun steps hsteps => hcut _ (h.cuts steps hsteps), h.errors, h.result⟩

/-- What another specification of the program says of its result. -/
theorem and_post {cut' : Traced σ τ → Prop} {err' : ε → Prop} {x : StoreM σ τ ε α}
    {post post' : α → Traced σ τ → Prop} (h : Runs cut err x at_ post)
    (h' : Runs cut' err' x at_ post') :
    Runs cut err x at_ (fun a next => post a next ∧ post' a next) :=
  ⟨h.cuts, h.errors, fun a ha => ⟨h.result a ha, h'.result a ha⟩⟩

end Runs

end Runs

/-! ## Observing a run -/

section Observing

variable {σ τ ε α β : Type} [Store σ τ]

/-- What `f` lists for the result of a program and the store behind it; nothing for an error. -/
def StoreM.listAfter (x : StoreM σ τ ε α) (f : α → σ → List β) (store : σ) : List β :=
  match (x store).result with
  | .error _ => []
  | .ok a => f a (Store.applyAll store (x store).steps)

@[simp] theorem StoreM.listAfter_nil (x : StoreM σ τ ε α) (store : σ) :
    x.listAfter (fun _ _ => ([] : List β)) store = [] := by
  unfold StoreM.listAfter
  split <;> rfl

theorem StoreM.flatMap_listAfter {γ : Type} (x : StoreM σ τ ε α) (f : α → σ → List β)
    (g : β → List γ) (store : σ) :
    (x.listAfter f store).flatMap g = x.listAfter (fun a store => (f a store).flatMap g) store := by
  unfold StoreM.listAfter
  split <;> rfl

/-- The steps of a sequence are those of its first part and what follows its result. -/
theorem StoreM.steps_bind (x : StoreM σ τ ε α) (f : α → StoreM σ τ ε β) (store : σ) :
    ((x >>= f) store).steps =
      (x store).steps ++ x.listAfter (fun a store => (f a store).steps) store := by
  show (StoreM.bind x f store).steps = _
  unfold StoreM.bind StoreM.listAfter
  cases (x store).result with
  | error error => exact (List.append_nil _).symm
  | ok a => rfl

/-- The list behind a run is empty, or that of its result at the point where it ends. -/
theorem Runs.listAfter_cases {cut : Traced σ τ → Prop} {err : ε → Prop} {at_ : Traced σ τ}
    {x : StoreM σ τ ε α} {post : α → Traced σ τ → Prop} (h : Runs cut err x at_ post)
    (f : α → σ → List β) :
    x.listAfter f at_.store = [] ∨
      ∃ a, post a (at_.after (x at_.store).steps) ∧
        x.listAfter f at_.store = f a (at_.after (x at_.store).steps).store := by
  unfold StoreM.listAfter
  -- a program that fails has no list
  cases hresult : (x at_.store).result with
  | error error => exact .inl rfl
  | ok a => exact .inr ⟨a, h.result a hresult, rfl⟩

end Observing

/-! ## Steps of one kind -/

section Takes

variable {σ τ ε α β : Type} {P : τ → Prop}

/-- Wherever the program starts, all its steps have `P`. -/
def Takes (P : τ → Prop) (x : StoreM σ τ ε α) : Prop := ∀ store, ∀ step ∈ (x store).steps, P step

namespace Takes

theorem fail (error : ε) : Takes P (StoreM.fail error : StoreM σ τ ε α) := by
  intro store step hstep
  cases hstep

theorem read : Takes P (StoreM.read : StoreM σ τ ε σ) := by
  intro store step hstep
  cases hstep

theorem ofExcept (x : Except ε α) : Takes P (StoreM.ofExcept x : StoreM σ τ ε α) := by
  intro store step hstep
  cases hstep

theorem perform {step : τ} (h : P step) : Takes P (StoreM.perform step : StoreM σ τ ε Unit) := by
  intro store taken htaken
  rw [List.mem_singleton.1 htaken]
  exact h

variable [Store σ τ]

theorem pure (a : α) : Takes P (Pure.pure a : StoreM σ τ ε α) := by
  intro store step hstep
  cases hstep

theorem bind {x : StoreM σ τ ε α} {f : α → StoreM σ τ ε β} (hx : Takes P x)
    (hf : ∀ a, Takes P (f a)) : Takes P (x >>= f) := by
  intro store step hstep
  change step ∈ (StoreM.bind x f store).steps at hstep
  -- a step is one of `x`, or of what follows its result
  cases hresult : (x store).result with
  | error error =>
    simp only [StoreM.bind, hresult] at hstep
    exact hx store step hstep
  | ok a =>
    simp only [StoreM.bind, hresult] at hstep
    rcases List.mem_append.1 hstep with hfirst | hrest
    · exact hx store step hfirst
    · exact hf a _ step hrest

/-- What each step with `P` preserves holds wherever the program is cut off, by induction on the
steps taken. -/
theorem runs {cut : Traced σ τ → Prop} {x : StoreM σ τ ε α} (h : Takes P x)
    (hstep : ∀ point step, P step → cut point → cut (point.after [step])) {at_ : Traced σ τ}
    (hcut : cut at_) : Runs cut (fun _ => True) x at_ (fun _ next => cut next) := by
  -- step by step, so that the cuts before the end are covered too
  have hcuts : ∀ steps, steps <+: (x at_.store).steps → cut (at_.after steps) := by
    intro steps hsteps
    induction steps using List.reverseRecOn with
    | nil =>
      rw [Traced.after_nil]
      exact hcut
    | append_singleton steps step ih =>
      rw [Traced.after_append]
      refine hstep _ _ (h at_.store step (hsteps.subset (by simp))) (ih ?_)
      exact (List.prefix_append _ _).trans hsteps
  exact ⟨hcuts, fun _ _ => trivial, fun _ _ => hcuts _ (List.prefix_refl _)⟩

end Takes

end Takes

end HotIndex.Lib
