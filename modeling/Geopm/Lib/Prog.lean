import Mathlib

/-!
# Programs with a state and exceptions

A program is an `EStateM ε σ α`: it reads and writes a state `σ`, and either returns an `α` or
raises an `ε`.  An exception does not undo the writes made before it was raised, as in Python
and C++.

* `Prog.wp m Q E s` : run from `s`, the program `m` returns into `Q` or raises into `E`;
* `Prog.final m s` : the state in which `m` leaves `s`, whether it returns or raises;
* `Prog.returns m s` : whether it returns;
* `Prog.zoom part put m` : the program `m` on a part of the state;
* `Prog.Reads R m` : `m` changes nothing, and does the same in states that `R` relates;
* `Prog.Keeps view m` : `m` may change the state, but not what `view` shows of it.

The rules compute `wp` through sequencing, conditionals, handlers and loops, so a property of a
long program is assembled from one specification for each program it calls.
-/

namespace Prog

open List hiding get modify set

variable {ε σ α β : Type}

/-- Run from `s`, the program `m` returns into `Q` or raises into `E`. -/
def wp (m : EStateM ε σ α) (Q : α → σ → Prop) (E : ε → σ → Prop) (s : σ) : Prop :=
  match m s with
  | .ok a s' => Q a s'
  | .error e s' => E e s'

/-- The state in which `m` leaves `s`, whether it returns or raises. -/
def final (m : EStateM ε σ α) (s : σ) : σ :=
  match m s with
  | .ok _ s' => s'
  | .error _ s' => s'

/-- Whether `m` returns from `s`. -/
def returns (m : EStateM ε σ α) (s : σ) : Bool :=
  match m s with
  | .ok _ _ => true
  | .error _ _ => false

theorem eq_ok_of_returns {m : EStateM ε σ Unit} {s : σ} (h : returns m s = true) :
    m s = .ok () (final m s) := by
  unfold returns at h
  unfold final
  cases hm : m s with
  | ok a s' => rfl
  | error e s' => rw [hm] at h; cases h

/-- What a specification says about a run that returns. -/
theorem of_returns {m : EStateM ε σ α} {Q : α → σ → Prop} {E : ε → σ → Prop} {s : σ}
    (h : wp m Q E s) (hm : returns m s = true) : ∃ a, Q a (final m s) := by
  unfold wp at h
  unfold returns at hm
  unfold final
  cases hs : m s with
  | ok a s' => rw [hs] at h; exact ⟨a, h⟩
  | error e s' => rw [hs] at hm; cases hm

/-- What a specification says about a run that raises. -/
theorem of_raises {m : EStateM ε σ α} {Q : α → σ → Prop} {E : ε → σ → Prop} {s : σ}
    (h : wp m Q E s) (hm : returns m s = false) : ∃ e, E e (final m s) := by
  unfold wp at h
  unfold returns at hm
  unfold final
  cases hs : m s with
  | ok a s' => rw [hs] at hm; cases hm
  | error e s' => rw [hs] at h; exact ⟨e, h⟩

variable {m : EStateM ε σ α} {f : α → EStateM ε σ β}

section Rules

variable {Q Q' : α → σ → Prop} {R : β → σ → Prop} {E E' : ε → σ → Prop} {s s' : σ}

/-- Programs that do the same in one state do the same there when they are continued. -/
theorem bind_congr {n : EStateM ε σ α} (h : m s = n s) : (m >>= f) s = (n >>= f) s := by
  change EStateM.bind m f s = EStateM.bind n f s
  unfold EStateM.bind
  rw [h]

theorem bind_of_ok {a : α} (h : m s = .ok a s') : (m >>= f) s = f a s' := by
  change EStateM.bind m f s = _
  unfold EStateM.bind
  rw [h]

theorem bind_of_error {e : ε} (h : m s = .error e s') : (m >>= f) s = .error e s' := by
  change EStateM.bind m f s = _
  unfold EStateM.bind
  rw [h]

/-- What comes before a result that was reached. -/
theorem exists_of_bind_eq_ok {b : β} (h : (m >>= f) s = .ok b s') :
    ∃ a t, m s = .ok a t ∧ f a t = .ok b s' := by
  cases hm : m s with
  | ok a t => exact ⟨a, t, rfl, (bind_of_ok hm).symm.trans h⟩
  | error e t =>
    rw [bind_of_error hm] at h
    cases h

theorem tryCatch_of_ok {h : ε → EStateM ε σ α} {a : α} (hm : m s = .ok a s') :
    tryCatch m h s = .ok a s' := by
  change EStateM.tryCatch m h s = _
  unfold EStateM.tryCatch
  rw [hm]

theorem tryCatch_of_error {h : ε → EStateM ε σ α} {e : ε} (hm : m s = .error e s') :
    tryCatch m h s = h e s' := by
  change EStateM.tryCatch m h s = _
  unfold EStateM.tryCatch
  rw [hm]
  rfl

theorem wp_congr {n : EStateM ε σ α} (h : m s = n s) : wp m Q E s ↔ wp n Q E s := by
  unfold wp
  rw [h]

theorem wp_final {P : σ → Prop} : wp m (fun _ => P) (fun _ => P) s ↔ P (final m s) := by
  unfold wp final
  cases m s <;> rfl

/-- Run a program on a part of the state. -/
def zoom {τ : Type} (part : σ → τ) (put : τ → σ → σ) (m : EStateM ε τ α) : EStateM ε σ α :=
  fun s => match m (part s) with
    | .ok a t => .ok a (put t s)
    | .error e t => .error e (put t s)

/-- What holds wherever the program ends holds. -/
theorem wp_const {p : Prop} : wp m (fun _ _ => p) (fun _ _ => p) s ↔ p := by
  unfold wp
  cases m s <;> rfl

theorem wp_mono (h : wp m Q E s) (hQ : ∀ a s', Q a s' → Q' a s') (hE : ∀ e s', E e s' → E' e s') :
    wp m Q' E' s := by
  unfold wp at *
  cases hm : m s with
  | ok a s' => rw [hm] at h; exact hQ _ _ h
  | error e s' => rw [hm] at h; exact hE _ _ h

theorem wp_mono_ok (h : wp m Q E s) (hQ : ∀ a s', Q a s' → Q' a s') : wp m Q' E s :=
  wp_mono h hQ fun _ _ h => h

theorem wp_and (h : wp m Q E s) (h' : wp m Q' E' s) :
    wp m (fun a s => Q a s ∧ Q' a s) (fun e s => E e s ∧ E' e s) s := by
  unfold wp at *
  cases hm : m s with
  | ok a s' => rw [hm] at h h'; exact ⟨h, h'⟩
  | error e s' => rw [hm] at h h'; exact ⟨h, h'⟩

theorem wp_of_ok {a : α} (hm : m s = .ok a s') (h : Q a s') : wp m Q E s := by
  unfold wp; rw [hm]; exact h

theorem wp_of_error {e : ε} (hm : m s = .error e s') (h : E e s') : wp m Q E s := by
  unfold wp; rw [hm]; exact h

@[simp] theorem wp_pure {a : α} : wp (pure a) Q E s ↔ Q a s := Iff.rfl

@[simp] theorem wp_bind :
    wp (m >>= f) R E s ↔ wp m (fun a => wp (f a) R E) E s := by
  unfold wp
  change (match EStateM.bind m f s with | .ok a s' => R a s' | .error e s' => E e s') ↔ _
  unfold EStateM.bind
  cases m s <;> rfl

@[simp] theorem wp_map {g : α → β} :
    wp (g <$> m) R E s ↔ wp m (fun a => R (g a)) E s := by
  unfold wp
  change (match EStateM.map g m s with | .ok a s' => R a s' | .error e s' => E e s') ↔ _
  unfold EStateM.map
  cases m s <;> rfl

@[simp] theorem wp_get {Q : σ → σ → Prop} {E : ε → σ → Prop} :
    wp (get : EStateM ε σ σ) Q E s ↔ Q s s := Iff.rfl

@[simp] theorem wp_set {Q : PUnit → σ → Prop} {E : ε → σ → Prop} {t : σ} :
    wp (set t : EStateM ε σ PUnit) Q E s ↔ Q ⟨⟩ t := Iff.rfl

@[simp] theorem wp_modify {Q : PUnit → σ → Prop} {E : ε → σ → Prop} {g : σ → σ} :
    wp (modify g : EStateM ε σ PUnit) Q E s ↔ Q ⟨⟩ (g s) := Iff.rfl

@[simp] theorem wp_throw {e : ε} : wp (throw e : EStateM ε σ α) Q E s ↔ E e s := Iff.rfl

@[simp] theorem wp_ite {c : Prop} [Decidable c] {n : EStateM ε σ α} :
    wp (if c then m else n) Q E s ↔ (c → wp m Q E s) ∧ (¬ c → wp n Q E s) := by
  split_ifs with hc <;> simp [hc]

/-- A handler runs in the state the exception was raised in. -/
@[simp] theorem wp_tryCatch {h : ε → EStateM ε σ α} :
    wp (tryCatch m h) Q E s ↔ wp m Q (fun e => wp (h e) Q E) s := by
  unfold wp
  change (match EStateM.tryCatch m h s with | .ok a s' => Q a s' | .error e s' => E e s') ↔ _
  unfold EStateM.tryCatch
  dsimp only [EStateM.dummySave]
  cases m s <;> rfl

/-- A program on a part of the state leaves the rest of it as it is. -/
@[simp] theorem wp_zoom {τ : Type} {part : σ → τ} {put : τ → σ → σ} {n : EStateM ε τ α} :
    wp (zoom part put n) Q E s ↔
      wp n (fun a t => Q a (put t s)) (fun e t => E e (put t s)) (part s) := by
  unfold wp zoom
  cases n (part s) <;> rfl

/-- The clean-up runs after a return and after an exception, which it passes on. -/
@[simp] theorem wp_tryFinally {n : EStateM ε σ β} :
    wp (tryFinally m n) Q E s ↔
      wp m (fun a => wp n (fun _ => Q a) E) (fun e => wp n (fun _ => E e) E) s := by
  unfold wp tryFinally
  change (match EStateM.map Prod.fst (tryFinally' m fun _ => n) s with
    | .ok a s' => Q a s' | .error e s' => E e s') ↔ _
  unfold EStateM.map
  simp only [tryFinally']
  cases m s with
  | ok a s' => dsimp only; cases n s' <;> rfl
  | error e s' => dsimp only; cases n s' <;> rfl

/-- A loop keeps what each of its iterations keeps. -/
theorem wp_forM {γ : Type} {g : γ → EStateM ε σ PUnit} {I : σ → Prop} {xs : List γ} (hs : I s)
    (hstep : ∀ x ∈ xs, ∀ s, I s → wp (g x) (fun _ => I) E s) :
    wp (xs.forM g) (fun _ => I) E s := by
  induction xs generalizing s with
  | nil => exact hs
  | cons x xs ih =>
    change wp (g x >>= fun _ => xs.forM g) _ _ _
    rw [wp_bind]
    refine wp_mono_ok (hstep x mem_cons_self s hs) fun _ s' hs' => ?_
    exact ih hs' fun y hy => hstep y (mem_cons_of_mem _ hy)

theorem wp_foldlM {γ : Type} {g : β → γ → EStateM ε σ β} {I : σ → Prop} {xs : List γ} {b : β}
    (hs : I s) (hstep : ∀ x ∈ xs, ∀ b s, I s → wp (g b x) (fun _ => I) E s) :
    wp (xs.foldlM g b) (fun _ => I) E s := by
  induction xs generalizing b s with
  | nil => exact hs
  | cons x xs ih =>
    rw [foldlM_cons, wp_bind]
    refine wp_mono_ok (hstep x mem_cons_self b s hs) fun _ s' hs' => ?_
    exact ih hs' fun y hy => hstep y (mem_cons_of_mem _ hy)

/-- A loop whose invariant speaks of the elements that have been dealt with. -/
theorem wp_forM_done {γ : Type} {g : γ → EStateM ε σ PUnit} {I : List γ → σ → Prop}
    {xs : List γ} (hs : I [] s)
    (hstep : ∀ pre x post, xs = pre ++ x :: post → ∀ s, I pre s →
      wp (g x) (fun _ => I (pre ++ [x])) E s) :
    wp (xs.forM g) (fun _ => I xs) E s := by
  suffices h : ∀ pre ys, xs = pre ++ ys → ∀ s, I pre s → wp (ys.forM g) (fun _ => I xs) E s from
    h [] xs rfl s hs
  intro pre ys
  induction ys generalizing pre with
  | nil =>
    intro hxs s hs
    rw [append_nil] at hxs
    exact hxs ▸ hs
  | cons y ys ih =>
    intro hxs s hs
    change wp (g y >>= fun _ => ys.forM g) _ _ _
    rw [wp_bind]
    refine wp_mono_ok (hstep pre y ys hxs s hs) fun _ s' hs' => ?_
    exact ih (pre ++ [y]) (by rw [hxs, append_assoc]; rfl) s' hs'

end Rules

/-! ### Views of the state -/

/-- The result, with another view of the state. -/
def mapState {τ : Type} (g : σ → τ) : EStateM.Result ε σ α → EStateM.Result ε τ α
  | .ok a s => .ok a (g s)
  | .error e s => .error e (g s)

/-- Steps that go through the same states do so one after the other. -/
theorem bind_mapState {τ : Type} {g : σ → τ} {m : EStateM ε σ α} {n : EStateM ε τ α}
    {k : α → EStateM ε σ β} {l : α → EStateM ε τ β} {s : σ} (hm : n (g s) = mapState g (m s))
    (hk : ∀ a s', m s = .ok a s' → l a (g s') = mapState g (k a s')) :
    (n >>= l) (g s) = mapState g ((m >>= k) s) := by
  cases h : m s with
  | ok a s' =>
    rw [h] at hm
    rw [bind_of_ok hm, bind_of_ok h]
    exact hk a s' h
  | error e s' =>
    rw [h] at hm
    rw [bind_of_error hm, bind_of_error h]
    rfl

theorem zoom_mapState {τ ρ : Type} {g : σ → τ} {part : σ → ρ} {put : ρ → σ → σ}
    {part' : τ → ρ} {put' : ρ → τ → τ} {m : EStateM ε ρ α} {s : σ} (hpart : part' (g s) = part s)
    (hput : ∀ t, put' t (g s) = g (put t s)) :
    zoom part' put' m (g s) = mapState g (zoom part put m s) := by
  unfold zoom
  rw [hpart]
  cases m (part s) with
  | ok a t => exact congrArg (EStateM.Result.ok a) (hput t)
  | error e t => exact congrArg (EStateM.Result.error e) (hput t)

theorem final_zoom {ρ : Type} {part : σ → ρ} {put : ρ → σ → σ} {m : EStateM ε ρ α} {s : σ} :
    final (zoom part put m) s = put (final m (part s)) s := by
  unfold final zoom
  cases m (part s) <;> rfl

theorem returns_zoom {ρ : Type} {part : σ → ρ} {put : ρ → σ → σ} {m : EStateM ε ρ α} {s : σ} :
    returns (zoom part put m) s = returns m (part s) := by
  unfold returns zoom
  cases m (part s) <;> rfl

theorem zoom_eq_ok {ρ : Type} {part : σ → ρ} {put : ρ → σ → σ} {m : EStateM ε ρ α} {s s' : σ}
    {a : α} (h : zoom part put m s = .ok a s') : ∃ t, m (part s) = .ok a t ∧ s' = put t s := by
  unfold zoom at h
  cases hm : m (part s) with
  | ok b t =>
    rw [hm] at h
    obtain ⟨rfl, rfl⟩ := (EStateM.Result.ok.injEq ..).mp h
    exact ⟨t, rfl, rfl⟩
  | error e t =>
    rw [hm] at h
    cases h

/-! ### Programs that only read -/

/-- Return or raise in an unchanged state. -/
def ret (r : Except ε α) : EStateM ε σ α := fun s =>
  match r with
  | .ok a => .ok a s
  | .error e => .error e s

/-- A result that is returned leaves the state as it is. -/
theorem ret_eq_ok {r : Except ε α} {a : α} {s s' : σ} (h : ret r s = .ok a s') :
    r = .ok a ∧ s' = s := by
  unfold ret at h
  cases r with
  | ok b =>
    cases h
    exact ⟨rfl, rfl⟩
  | error e => cases h

theorem wp_ret {r : Except ε α} {a : α} {Q : α → σ → Prop} {E : ε → σ → Prop} {s : σ}
    (hr : r = .ok a) (h : Q a s) : wp (ret r) Q E s := by
  subst hr
  exact h

theorem wp_ret_of {r : Except ε α} {Q : α → σ → Prop} {E : ε → σ → Prop} {s : σ}
    (hQ : ∀ a, r = .ok a → Q a s) (hE : ∀ e, r = .error e → E e s) : wp (ret r) Q E s := by
  cases r with
  | ok a => exact hQ a rfl
  | error e => exact hE e rfl

/-- `m` changes nothing, and does the same in states that `R` relates. -/
def Reads (R : σ → σ → Prop) (m : EStateM ε σ α) : Prop :=
  ∀ s s', R s s' → ∃ r : Except ε α, m s = ret r s ∧ m s' = ret r s'

namespace Reads

variable {R : σ → σ → Prop}

theorem pure (a : α) : Reads R (pure a : EStateM ε σ α) := fun _ _ _ => ⟨.ok a, rfl, rfl⟩

theorem throw (e : ε) : Reads R (throw e : EStateM ε σ α) := fun _ _ _ => ⟨.error e, rfl, rfl⟩

theorem bind (hm : Reads R m) (hf : ∀ a, Reads R (f a)) : Reads R (m >>= f) := by
  intro s s' hR
  obtain ⟨r, hs, hs'⟩ := hm s s' hR
  change ∃ r, EStateM.bind m f s = _ ∧ EStateM.bind m f s' = _
  unfold EStateM.bind
  rw [hs, hs']
  cases r with
  | ok a => exact hf a s s' hR
  | error e => exact ⟨.error e, rfl, rfl⟩

/-- A program that reads the state does the same when related states are alike to it. -/
theorem get_bind {f : σ → EStateM ε σ α} (hf : ∀ s, Reads R (f s))
    (heq : ∀ s s', R s s' → f s' = f s) : Reads R (get >>= f) := by
  intro s s' hR
  have hs : ∀ t, (get >>= f : EStateM ε σ α) t = f t t := fun _ => rfl
  rw [hs, hs, heq s s' hR]
  exact hf s s s' hR

theorem tryCatch {h : ε → EStateM ε σ α} (hm : Reads R m) (hh : ∀ e, Reads R (h e)) :
    Reads R (tryCatch m h) := by
  intro s s' hR
  obtain ⟨r, hs, hs'⟩ := hm s s' hR
  change ∃ r, EStateM.tryCatch m h s = _ ∧ EStateM.tryCatch m h s' = _
  unfold EStateM.tryCatch
  rw [hs, hs']
  cases r with
  | ok a => exact ⟨.ok a, rfl, rfl⟩
  | error e => exact hh e s s' hR

/-- A program that only reads returns or raises in the state it was started in. -/
theorem wp {Q : α → σ → Prop} {E : ε → σ → Prop} {s : σ} (hm : Reads R m) (hR : R s s)
    (hQ : ∀ a, m s = .ok a s → Q a s) (hE : ∀ e, m s = .error e s → E e s) :
    wp m Q E s := by
  obtain ⟨r, hs, -⟩ := hm s s hR
  cases r with
  | ok a => exact wp_of_ok hs (hQ a hs)
  | error e => exact wp_of_error hs (hE e hs)

end Reads

/-! ### Programs that keep a part of the state -/

/-- Whether it returns or raises, `m` leaves what `view` shows of the state as it is. -/
def Keeps {τ : Type} (view : σ → τ) (m : EStateM ε σ α) : Prop :=
  ∀ s, wp m (fun _ s' => view s' = view s) (fun _ s' => view s' = view s) s

namespace Keeps

variable {τ : Type} {view : σ → τ}

theorem pure (a : α) : Keeps view (pure a : EStateM ε σ α) := fun _ => rfl

theorem throw (e : ε) : Keeps view (throw e : EStateM ε σ α) := fun _ => rfl

theorem get : Keeps view (get : EStateM ε σ σ) := fun _ => rfl

theorem modify {g : σ → σ} (hg : ∀ s, view (g s) = view s) :
    Keeps view (modify g : EStateM ε σ PUnit) := hg

theorem ret (r : Except ε α) : Keeps view (ret r : EStateM ε σ α) := fun _ =>
  wp_ret_of (fun _ _ => rfl) fun _ _ => rfl

/-- What a part of the view shows is kept, too. -/
theorem comp {ρ : Type} (g : τ → ρ) (hm : Keeps view m) : Keeps (fun s => g (view s)) m := fun s =>
  wp_mono (hm s) (fun _ _ h => congrArg g h) fun _ _ h => congrArg g h

theorem bind (hm : Keeps view m) (hf : ∀ a, Keeps view (f a)) : Keeps view (m >>= f) := by
  intro s
  rw [wp_bind]
  refine wp_mono_ok (hm s) fun a s' hs' => ?_
  exact wp_mono (hf a s') (fun _ _ h => h.trans hs') fun _ _ h => h.trans hs'

theorem ite {c : Prop} [Decidable c] {n : EStateM ε σ α} (hm : Keeps view m)
    (hn : Keeps view n) : Keeps view (if c then m else n) := by
  split_ifs
  · exact hm
  · exact hn

theorem tryCatch {h : ε → EStateM ε σ α} (hm : Keeps view m) (hh : ∀ e, Keeps view (h e)) :
    Keeps view (tryCatch m h) := by
  intro s
  rw [wp_tryCatch]
  refine wp_mono (hm s) (fun _ _ h => h) fun e s' hs' => ?_
  exact wp_mono (hh e s') (fun _ _ h => h.trans hs') fun _ _ h => h.trans hs'

theorem forM {γ : Type} {g : γ → EStateM ε σ PUnit} {xs : List γ} (hg : ∀ x, Keeps view (g x)) :
    Keeps view (xs.forM g) := by
  induction xs with
  | nil => exact fun _ => rfl
  | cons x xs ih => exact (hg x).bind fun _ => ih

theorem mapM {γ : Type} {g : γ → EStateM ε σ α} {xs : List γ} (hg : ∀ x, Keeps view (g x)) :
    Keeps view (xs.mapM g) := by
  induction xs with
  | nil => exact pure []
  | cons x xs ih =>
    rw [mapM_cons]
    exact (hg x).bind fun _ => ih.bind fun _ => pure _

end Keeps

/-! ### Lists of programs -/

section Lists

variable {γ δ : Type} {xs : List γ}

/-- Programs that are alike on the elements of a list are alike on the list. -/
theorem mapM_congr {m : Type → Type} [Monad m] [LawfulMonad m] {f g : γ → m δ}
    (h : ∀ x ∈ xs, f x = g x) : xs.mapM f = xs.mapM g := by
  induction xs with
  | nil => rfl
  | cons x xs ih =>
    rw [mapM_cons, mapM_cons, h x mem_cons_self,
      ih fun y hy => h y (mem_cons_of_mem _ hy)]

theorem forM_congr {m : Type → Type} [Monad m] {f g : γ → m PUnit} (h : ∀ x ∈ xs, f x = g x) :
    xs.forM f = xs.forM g := by
  induction xs with
  | nil => rfl
  | cons x xs ih =>
    change (f x >>= fun _ => xs.forM f) = (g x >>= fun _ => xs.forM g)
    rw [h x mem_cons_self, ih fun y hy => h y (mem_cons_of_mem _ hy)]

/-- A loop whose iterations return leads through their states. -/
theorem forM_eq_ok {f : γ → EStateM ε σ PUnit} {next : σ → γ → σ} {s : σ}
    (h : ∀ x ∈ xs, ∀ s, f x s = .ok ⟨⟩ (next s x)) : xs.forM f s = .ok ⟨⟩ (xs.foldl next s) := by
  induction xs generalizing s with
  | nil => rfl
  | cons x xs ih =>
    change EStateM.bind (f x) (fun _ => xs.forM f) s = _
    unfold EStateM.bind
    rw [h x mem_cons_self s]
    exact ih fun y hy => h y (mem_cons_of_mem _ hy)

/-- What does not raise returns. -/
theorem exists_ok_of_wp {m : EStateM ε σ α} {Q : α → σ → Prop} {s : σ}
    (h : wp m Q (fun _ _ => False) s) : ∃ a s', m s = .ok a s' ∧ Q a s' := by
  unfold wp at h
  cases hm : m s with
  | ok a s' => rw [hm] at h; exact ⟨a, s', rfl, h⟩
  | error e s' => rw [hm] at h; exact h.elim

/-- A list of results is returned when each of them is. -/
theorem mapM_eq_ok {f : γ → Except ε δ} {ys : List δ} :
    xs.mapM f = .ok ys ↔ List.Forall₂ (fun x y => f x = .ok y) xs ys := by
  induction xs generalizing ys with
  | nil =>
    rw [mapM_nil, forall₂_nil_left_iff]
    exact ⟨fun h => (Except.ok.inj h).symm, fun h => congrArg Except.ok h.symm⟩
  | cons x xs ih =>
    rw [mapM_cons]
    cases hx : f x with
    | error e =>
      refine ⟨fun h => (nomatch h), fun h => ?_⟩
      obtain ⟨y, _, hy, -, -⟩ := forall₂_cons_left_iff.mp h
      rw [hx] at hy
      cases hy
    | ok y =>
      change (xs.mapM f >>= fun ys => Except.ok (y :: ys)) = _ ↔ _
      cases hxs : xs.mapM f with
      | error e =>
        refine ⟨fun h => (nomatch h), fun h => ?_⟩
        obtain ⟨_, ys', -, hys, -⟩ := forall₂_cons_left_iff.mp h
        rw [ih.mpr hys] at hxs
        cases hxs
      | ok ys' =>
        rw [forall₂_cons_left_iff]
        constructor
        · intro h
          exact ⟨y, ys', hx, ih.mp hxs, (Except.ok.inj h).symm⟩
        · rintro ⟨z, zs, hz, hzs, rfl⟩
          rw [hx] at hz
          rw [ih.mpr hzs] at hxs
          cases hz
          cases hxs
          rfl

/-- A list of results raises what one of them raises. -/
theorem exists_error_of_mapM {f : γ → Except ε δ} {e : ε}
    (h : xs.mapM f = .error e) : ∃ x ∈ xs, f x = .error e := by
  induction xs with
  | nil => cases h
  | cons x xs ih =>
    rw [mapM_cons] at h
    cases hx : f x with
    | error e' =>
      rw [hx] at h
      cases h
      exact ⟨x, mem_cons_self, hx⟩
    | ok y =>
      rw [hx] at h
      change (xs.mapM f >>= fun ys => Except.ok (y :: ys)) = _ at h
      cases hxs : xs.mapM f with
      | error e' =>
        rw [hxs] at h
        cases h
        obtain ⟨z, hz, hfz⟩ := ih hxs
        exact ⟨z, mem_cons_of_mem _ hz, hfz⟩
      | ok ys =>
        rw [hxs] at h
        cases h

end Lists

end Prog
