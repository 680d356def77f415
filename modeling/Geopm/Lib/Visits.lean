import Mathlib

/-!
# Visits

A place is entered and left; an exit ends the visit that the last entry began.

* `Visits.of ms` : the visits among the entries and exits `ms`, in the order they were made;
* `Visits.since` : the time of the entry that has not been left yet;
* `Visits.time` : the total time of the visits that have ended;
* `Visits.time_of_map` : a homomorphism of the times commutes with the total time.
-/

/-- An entry or an exit, and its time. -/
inductive Mark (T : Type*) where
  | enter (t : T)
  | exit (t : T)

/-- The same entry or exit, at another time. -/
def Mark.map {T S : Type*} (f : T → S) : Mark T → Mark S
  | .enter t => .enter (f t)
  | .exit t => .exit (f t)

/-- The visits that have been made. -/
structure Visits (T : Type*) where
  /-- The time of the entry that has not been left. -/
  since : Option T
  /-- The total time of the visits that have ended. -/
  time : T

namespace Visits

variable {T : Type*} [AddCommGroup T]

/-- One more entry or exit; an exit without an entry is no visit. -/
def next (v : Visits T) : Mark T → Visits T
  | .enter t => { v with since := some t }
  | .exit t => { since := none, time := v.time + v.since.elim 0 fun t₀ => t - t₀ }

/-- The visits among a sequence of entries and exits. -/
def of (ms : List (Mark T)) : Visits T := ms.foldl next ⟨none, 0⟩

@[simp] theorem of_nil : of ([] : List (Mark T)) = ⟨none, 0⟩ := rfl

@[simp] theorem of_concat (ms : List (Mark T)) (m : Mark T) : of (ms ++ [m]) = (of ms).next m := by
  simp only [of, List.foldl_append, List.foldl_cons, List.foldl_nil]

@[simp] theorem since_next_enter (v : Visits T) (t : T) : (v.next (.enter t)).since = some t := rfl

@[simp] theorem time_next_enter (v : Visits T) (t : T) : (v.next (.enter t)).time = v.time := rfl

theorem time_next_exit {v : Visits T} {t₀ : T} (h : v.since = some t₀) (t : T) :
    (v.next (.exit t)).time = v.time + (t - t₀) := by
  simp only [next, h, Option.elim_some]

section Map

variable {S : Type*} [AddCommGroup S] (f : T →+ S)

/-- The visits with other times. -/
def map (v : Visits T) : Visits S := ⟨v.since.map f, f v.time⟩

theorem map_next (v : Visits T) (m : Mark T) : (v.next m).map f = (v.map f).next (m.map f) := by
  cases m with
  | enter t => rfl
  | exit t =>
    unfold map next
    cases v.since with
    | none => simp [Mark.map]
    | some t₀ => simp [Mark.map]

variable (ms : List (Mark T))

/-- A homomorphism of the times commutes with the visits. -/
theorem of_map : of (ms.map (Mark.map f)) = (of ms).map f := by
  induction ms using List.reverseRecOn with
  | nil => simp [map]
  | append_singleton ms m ih =>
    rw [List.map_append, List.map_singleton, of_concat, ih, of_concat, map_next]

theorem time_of_map :
    (of (ms.map (Mark.map f))).time = f (of ms).time :=
  congrArg time (of_map f ms)

theorem since_of_map :
    (of (ms.map (Mark.map f))).since = (of ms).since.map f :=
  congrArg since (of_map f ms)

end Map

end Visits
