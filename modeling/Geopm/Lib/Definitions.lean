import Mathlib

/-!
# Systems of definitions

Names are defined by functions of the values of other names, and some names have values of their
own.

* `Definition` : a function of the values of the names that it refers to;
* `Denotes` : the value of a name, by substitution of the definitions;
* `Denotes.unique` : it is the only one;
* `denotes_of_eval`, `not_denotes_of_eval` : what an evaluation with the values of the references
  tells of a defined name.
-/

/-- A function of the values of the names that it refers to, which may raise. -/
structure Definition (κ V ε : Type) where
  refs : List κ
  eval : (κ → Option V) → Except ε V
  congr : ∀ env env' : κ → Option V, (∀ r ∈ refs, env r = env' r) → eval env = eval env'

/-- The value of a name: that of its definition, for the values of the names that it refers to, or
its own when it is not defined. -/
inductive Denotes {κ V ε : Type} (defs : κ → Option (Definition κ V ε)) (base : κ → Option V) :
    κ → V → Prop
  | own {name : κ} {v : V} : defs name = none → base name = some v → Denotes defs base name v
  | defined {name : κ} {d : Definition κ V ε} {v : V} (env : κ → Option V) :
    defs name = some d → (∀ r ∈ d.refs, (env r).isSome) →
    (∀ r w, r ∈ d.refs → env r = some w → Denotes defs base r w) → d.eval env = .ok v →
    Denotes defs base name v

section Denotes

variable {κ V ε : Type} {defs : κ → Option (Definition κ V ε)} {base : κ → Option V} {name : κ}
variable {d : Definition κ V ε} {env : κ → Option V} {v v' : V}

/-- A name has one value at most. -/
theorem Denotes.unique (h : Denotes defs base name v) (h' : Denotes defs base name v') : v = v' := by
  induction h generalizing v' with
  | own hnone hv =>
    cases h' with
    | own _ hv' => exact Option.some.inj (hv.symm.trans hv')
    | defined _ hd => rw [hnone] at hd; cases hd
  | defined env hd hsome _ heval ih =>
    cases h' with
    | own hnone => rw [hnone] at hd; cases hd
    | defined env' hd' hsome' hdenotes' heval' =>
      obtain rfl := Option.some.inj (hd.symm.trans hd')
      refine Except.ok.inj (heval.symm.trans (Eq.trans (Definition.congr _ _ _ ?_) heval'))
      intro r hr
      obtain ⟨w, hw⟩ := Option.isSome_iff_exists.mp (hsome r hr)
      obtain ⟨w', hw'⟩ := Option.isSome_iff_exists.mp (hsome' r hr)
      rw [hw, hw', ih r w hr hw (hdenotes' r w' hr hw')]

/-- The environment has the values of the references. -/
def Supplies (defs : κ → Option (Definition κ V ε)) (base : κ → Option V)
    (d : Definition κ V ε) (env : κ → Option V) : Prop :=
  ∀ r ∈ d.refs, ∃ w, env r = some w ∧ Denotes defs base r w

/-- A definition whose evaluation returns a value denotes it. -/
theorem denotes_of_eval (hd : defs name = some d) (henv : Supplies defs base d env)
    (heval : d.eval env = .ok v) : Denotes defs base name v := by
  refine .defined env hd (fun r hr => ?_) (fun r w hr hw => ?_) heval
  · obtain ⟨w, hw, -⟩ := henv r hr
    rw [hw, Option.isSome_some]
  · obtain ⟨w', hw', hdenotes⟩ := henv r hr
    obtain rfl := Option.some.inj (hw.symm.trans hw')
    exact hdenotes

/-- A value of a defined name is what its evaluation returns. -/
theorem Denotes.eval_eq (h : Denotes defs base name v) (hd : defs name = some d)
    (henv : Supplies defs base d env) : d.eval env = .ok v := by
  cases h with
  | own hnone => rw [hnone] at hd; cases hd
  | defined env' hd' hsome hdenotes heval =>
    obtain rfl := Option.some.inj (hd.symm.trans hd')
    refine (d.congr _ _ fun r hr => ?_).trans heval
    obtain ⟨w, hw, hwr⟩ := henv r hr
    obtain ⟨w', hw'⟩ := Option.isSome_iff_exists.mp (hsome r hr)
    rw [hw, hw', hwr.unique (hdenotes r w' hr hw')]

/-- A defined name whose references all have values, but not it, raises. -/
theorem not_denotes_of_eval {e : ε} (hd : defs name = some d) (henv : Supplies defs base d env)
    (heval : d.eval env = .error e) : ¬ ∃ v, Denotes defs base name v := by
  rintro ⟨v, h⟩
  rw [h.eval_eq hd henv] at heval
  cases heval

end Denotes
