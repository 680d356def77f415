import Mathlib

/-!
# Settings that are written when a flag says so

A governor remembers what it asked for last, and a flag says whether that is written.

* `Writeback` : what was asked for last, and what is in force;
* `Writeback.set` : ask for a target, and write it when the flag is set;
* `Writeback.coherent_set_iff` : the flag may only be left out for a target that is the same as the
  last one.
-/

/-- What was asked for last, and what is in force. -/
structure Writeback (σ : Type*) where
  last : σ
  inForce : σ

namespace Writeback

variable {σ : Type*} {r : σ → σ → Prop} {w : Writeback σ} {target : σ} {write : Bool}

/-- Ask for a target, and write it when the flag is set. -/
def set (_w : Writeback σ) (target : σ) (write : Bool) : Writeback σ :=
  ⟨target, if write then target else _w.inForce⟩

/-- What was asked for last is in force. -/
def Coherent (r : σ → σ → Prop) (w : Writeback σ) : Prop := r w.inForce w.last

@[simp] theorem set_last : (w.set target write).last = target := rfl

@[simp] theorem set_inForce_of_skip : (w.set target false).inForce = w.inForce := rfl

/-- What is written is in force. -/
theorem coherent_set_of_write (hr : Equivalence r) : Coherent r (w.set target true) :=
  hr.refl target

/-- Afterwards the target is in force exactly when it was written, or is the same as the last one. -/
theorem coherent_set_iff (hr : Equivalence r) (h : Coherent r w) :
    Coherent r (w.set target write) ↔ write = true ∨ r w.last target := by
  cases write with
  | true => exact ⟨fun _ => .inl rfl, fun _ => coherent_set_of_write hr⟩
  | false =>
    rw [Coherent, set_inForce_of_skip, set_last]
    constructor
    · exact fun hforce => .inr (hr.trans (hr.symm h) hforce)
    · rintro (hwrite | hlast)
      · cases hwrite
      · exact hr.trans h hlast

end Writeback
