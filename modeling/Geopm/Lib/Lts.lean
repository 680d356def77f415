import Mathlib

/-!
# Transition systems and their runs

* `Lts S L` : a transition relation with states `S` and labels `L`;
* `Lts.ReachableIf C s s'` : a run leads from `s` to `s'`, and each of its steps meets the
  condition `C` in the state it is taken in;
* `Lts.ReachableIf.invariant` : what holds at the start and is kept by every step that meets the
  condition holds at the end of every such run;
* `Lts.ofNext` and `Lts.run` : the system of a partial step function, and its executable runs;
* `Lts.ofFun` and `Lts.Along` : the system of a total step function, and its runs;
* `Lts.record` : the same system with a history variable that the labels drive.
-/

/-- A transition relation with states `S` and labels `L`. -/
structure Lts (S L : Type*) where
  /-- `step s l s'` : the label `l` leads from `s` to `s'`. -/
  step : S → L → S → Prop

namespace Lts

variable {S L H : Type*} (A : Lts S L)

/-- One step whose label meets the condition `C` in the state it leaves. -/
def StepIf (C : S → L → Prop) (s s' : S) : Prop := ∃ l, C s l ∧ A.step s l s'

/-- A run leads from `s` to `s'`, and each of its steps meets `C`. -/
def ReachableIf (C : S → L → Prop) : S → S → Prop := Relation.ReflTransGen (A.StepIf C)

/-- A run leads from `s` to `s'`. -/
def Reachable : S → S → Prop := A.ReachableIf fun _ _ => True

/-- The same system with a history: `upd s l s' h` is the history after the step. -/
def record (upd : S → L → S → H → H) : Lts (S × H) L where
  step x l x' := A.step x.1 l x'.1 ∧ x'.2 = upd x.1 l x'.1 x.2

variable {A} {C D : S → L → Prop} {s s' t : S} {l : L}

namespace ReachableIf

theorem refl (s : S) : A.ReachableIf C s s := Relation.ReflTransGen.refl

theorem tail (h : A.ReachableIf C s s') (hC : C s' l) (hl : A.step s' l t) :
    A.ReachableIf C s t :=
  Relation.ReflTransGen.tail h ⟨l, hC, hl⟩

theorem head (hC : C s l) (hl : A.step s l s') (h : A.ReachableIf C s' t) :
    A.ReachableIf C s t :=
  Relation.ReflTransGen.head ⟨l, hC, hl⟩ h

theorem mono (hCD : ∀ s l, C s l → D s l) (h : A.ReachableIf C s s') : A.ReachableIf D s s' :=
  Relation.ReflTransGen.mono (fun _ _ ⟨l, hC, hl⟩ => ⟨l, hCD _ l hC, hl⟩) _ _ h

theorem reachable (h : A.ReachableIf C s s') : A.Reachable s s' :=
  h.mono fun _ _ _ => trivial

/-- What holds at the start, and is kept by every step that meets the condition, holds at the
end of the run. -/
theorem invariant {I : S → Prop} (h : A.ReachableIf C s s') (h₀ : I s)
    (hstep : ∀ s l s', I s → C s l → A.step s l s' → I s') : I s' := by
  induction h with
  | refl => exact h₀
  | tail _ hst ih => obtain ⟨l, hC, hl⟩ := hst; exact hstep _ l _ ih hC hl

/-- An invariant that is already known may be used to establish another one. -/
theorem invariant_of {J I : S → Prop} (h : A.ReachableIf C s s')
    (hJ : ∀ t, A.ReachableIf C s t → J t) (h₀ : I s)
    (hstep : ∀ s l s', J s → I s → C s l → A.step s l s' → I s') : I s' := by
  induction h with
  | refl => exact h₀
  | tail hr hst ih => obtain ⟨l, hC, hl⟩ := hst; exact hstep _ l _ (hJ _ hr) ih hC hl

end ReachableIf

/-! ### Executable runs -/

/-- The system of a step function; `none` means that the label cannot be taken. -/
def ofNext (next : S → L → Option S) : Lts S L where
  step s l s' := next s l = some s'

/-- Perform the labels `ls` in order. -/
def run (next : S → L → Option S) : S → List L → Option S
  | s, [] => some s
  | s, l :: ls => (next s l).bind fun s' => run next s' ls

variable {next : S → L → Option S} {ls : List L}

/-- An executable run whose steps all meet the condition reaches its last state. -/
theorem reachableIf_of_run (h : run next s ls = some t)
    (hC : ∀ s, ∀ l ∈ ls, C s l) : (ofNext next).ReachableIf C s t := by
  induction ls generalizing s with
  | nil =>
    simp only [run, Option.some.injEq] at h
    subst h
    exact ReachableIf.refl _
  | cons l ls ih =>
    simp only [run, Option.bind_eq_some_iff] at h
    obtain ⟨s', hl, hs'⟩ := h
    exact .head (hC s l List.mem_cons_self) hl
      (ih hs' fun s m hm => hC s m (List.mem_cons_of_mem _ hm))

theorem reachable_of_run (h : run next s ls = some t) :
    (ofNext next).Reachable s t :=
  reachableIf_of_run h fun _ _ _ => trivial

theorem run_concat (next : S → L → Option S) (s : S) (ls : List L) (l : L) :
    run next s (ls ++ [l]) = (run next s ls).bind fun t => next t l := by
  induction ls generalizing s with
  | nil =>
    show (next s l).bind some = next s l
    exact Option.bind_fun_some _
  | cons m ls ih =>
    show (next s m).bind (fun t => run next t (ls ++ [l])) = _
    simp only [ih, run, Option.bind_assoc]

/-- A run that checks the condition at each step is a run, and its steps meet the condition. -/
theorem run_of_checked [∀ s l, Decidable (C s l)]
    (h : run (fun s l => if C s l then next s l else none) s ls = some t) :
    run next s ls = some t ∧ (ofNext next).ReachableIf C s t := by
  induction ls generalizing s with
  | nil =>
    cases h
    exact ⟨rfl, ReachableIf.refl _⟩
  | cons l ls ih =>
    simp only [run, Option.bind_eq_some_iff] at h
    obtain ⟨s', hl, hs'⟩ := h
    by_cases hC : C s l
    · rw [if_pos hC] at hl
      obtain ⟨hrun, hreach⟩ := ih hs'
      exact ⟨Option.bind_eq_some_iff.mpr ⟨s', hl, hrun⟩, .head hC hl hreach⟩
    · rw [if_neg hC] at hl
      cases hl

/-! ### Total step functions -/

/-- The system of a step function that every label can be taken with. -/
def ofFun (next : S → L → S) : Lts S L where
  step s l s' := s' = next s l

/-- The condition is met at each of the labels, which are performed in order. -/
def Along (C : S → L → Prop) (next : S → L → S) : S → List L → Prop
  | _, [] => True
  | s, l :: ls => C s l ∧ Along C next (next s l) ls

variable {next : S → L → S}

theorem reachableIf_of_along (h : Along C next s ls) :
    (ofFun next).ReachableIf C s (ls.foldl next s) := by
  induction ls generalizing s with
  | nil => exact ReachableIf.refl _
  | cons l ls ih => exact .head h.1 rfl (ih h.2)

/-- A condition that the labels meet in every state. -/
theorem along_of_forall (h : ∀ s, ∀ l ∈ ls, C s l) :
    Along C next s ls := by
  induction ls generalizing s with
  | nil => trivial
  | cons l ls ih =>
    exact ⟨h s l List.mem_cons_self, ih fun s m hm => h s m (List.mem_cons_of_mem _ hm)⟩

theorem along_append {ls ms : List L} :
    Along C next s (ls ++ ms) ↔ Along C next s ls ∧ Along C next (ls.foldl next s) ms := by
  induction ls generalizing s with
  | nil => exact ⟨fun h => ⟨trivial, h⟩, fun h => h.2⟩
  | cons l ls ih =>
    change C s l ∧ Along C next (next s l) (ls ++ ms) ↔ (C s l ∧ _) ∧ _
    rw [ih, and_assoc]
    rfl

theorem along_concat :
    Along C next s (ls ++ [l]) ↔ Along C next s ls ∧ C (ls.foldl next s) l := by
  rw [along_append]
  exact and_congr_right fun _ => and_iff_left trivial

/-- Conditions that agree in the states of an invariant agree along a run. -/
theorem along_congr {I : S → Prop}
    (hI : ∀ s l, I s → I (next s l)) (hiff : ∀ s l, I s → (C s l ↔ D s l)) (h : I s) :
    Along C next s ls ↔ Along D next s ls := by
  induction ls generalizing s with
  | nil => exact Iff.rfl
  | cons l ls ih =>
    change C s l ∧ _ ↔ D s l ∧ _
    rw [hiff s l h, ih (hI s l h)]

/-- In the runs whose steps meet `A`, the conditions `C` and `D` are met by the same runs, when they
agree in the states of an invariant that the steps which meet `D` keep. -/
theorem along_iff_along {A : S → L → Prop} {I : S → Prop}
    (hiff : ∀ s l, I s → A s l → (C s l ↔ D s l)) (hI : ∀ s l, I s → A s l → D s l → I (next s l))
    (h : I s) (hA : Along A next s ls) : Along C next s ls ↔ Along D next s ls := by
  induction ls generalizing s with
  | nil => exact Iff.rfl
  | cons l ls ih =>
    obtain ⟨hl, hrest⟩ := hA
    change C s l ∧ _ ↔ D s l ∧ _
    rw [hiff s l h hl]
    exact and_congr_right fun hD => ih (hI s l h hl hD) hrest

/-- A run meets the condition at each step exactly when it avoids the states `B` that no step leads
out of and every other step leads into. -/
theorem along_iff_of_trap {I B : S → Prop}
    (hI : ∀ s l, I s → C s l → I (next s l)) (hB : ∀ s l, I s → ¬ C s l → B (next s l))
    (htrap : ∀ s l, B s → B (next s l)) (hdisjoint : ∀ s, I s → ¬ B s) (h : I s) :
    Along C next s ls ↔ ¬ B (ls.foldl next s) := by
  have htraps : ∀ (ls : List L) (s : S), B s → B (ls.foldl next s) := by
    intro ls
    induction ls with
    | nil => exact fun _ h => h
    | cons l ls ih => exact fun s h => ih (next s l) (htrap s l h)
  induction ls generalizing s with
  | nil => exact ⟨fun _ => hdisjoint s h, fun _ => trivial⟩
  | cons l ls ih =>
    by_cases hC : C s l
    · exact ⟨fun hrun => (ih (hI s l h hC)).mp hrun.2,
        fun hb => ⟨hC, (ih (hI s l h hC)).mpr hb⟩⟩
    · exact ⟨fun hrun => absurd hrun.1 hC, fun hb => absurd (htraps ls _ (hB s l h hC)) hb⟩

/-- The labels of a list can be performed in order. -/
theorem reachable_foldl (s : S) (ls : List L) :
    (ofFun next).Reachable s (ls.foldl next s) := by
  induction ls generalizing s with
  | nil => exact ReachableIf.refl _
  | cons l ls ih => exact .head trivial rfl (ih _)

end Lts
