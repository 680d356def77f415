import Geopm.Agent.PowerBalancerLeaf
import Geopm.Lib.Shares

/-!
# The shares of the slack

What `SendDownLimitStep::enter_step` makes of the limits of the packages and of the slack: each
package receives its share of it.

* `foldl_add`, `exists_foldl_min` : the sum and the least of numbers, which the loops compute;
* `evenSlack_eq` : the even share is one that every package has room for;
* `enterSendDownLimit_eq` : the caps are the limits with the shares of `Shares.share`;
* `enterSendDownLimit_caps` : the slack is handed out, within the maximum of each package.
-/

namespace Geopm.PowerBalancerAgent

open Pio (Value)
open Prog Shares LeafRole

variable {numDomain : ℕ} {ι : Type}

/-! ### Loops that compute a number -/

theorem foldl_add (f : ι → ℚ) (is : List ι) (a : ℚ) :
    is.foldl (fun result i => Value.add result (some (f i))) (some a) =
      some (a + (is.map f).sum) := by
  induction is generalizing a with
  | nil => simp
  | cons i is ih =>
    show is.foldl _ (some (a + f i)) = _
    rw [ih, List.map_cons, List.sum_cons, add_assoc]

theorem exists_foldl_min (f : ι → ℚ) (is : List ι) (a : ℚ) :
    ∃ m, is.foldl (fun result i => Value.min result (some (f i))) (some a) = some m ∧
      m ≤ a ∧ (∀ i ∈ is, m ≤ f i) ∧ (0 ≤ a → (∀ i ∈ is, 0 ≤ f i) → 0 ≤ m) := by
  induction is generalizing a with
  | nil => exact ⟨a, rfl, le_rfl, fun i hi => absurd hi List.not_mem_nil, fun h _ => h⟩
  | cons i is ih =>
    obtain ⟨m, hfold, hle, hall, hnonneg⟩ := ih (min a (f i))
    refine ⟨m, ?_, hle.trans (min_le_left _ _), ?_, ?_⟩
    · rw [List.foldl_cons, Pio.Value.min_some]
      exact hfold
    · intro j hj
      obtain rfl | hj := List.mem_cons.mp hj
      · exact hle.trans (min_le_right _ _)
      · exact hall j hj
    · intro ha hpos
      exact hnonneg (le_min ha (hpos i List.mem_cons_self))
        fun j hj => hpos j (List.mem_cons_of_mem _ hj)

/-! ### The shares -/

/-- The limits of the packages are numbers, none above the maximum, and there is room for the
slack. -/
structure HasRoom (s : LeafRole numDomain) (limit : Fin numDomain → ℚ) (slack : ℚ) : Prop where
  powerLimit : ∀ i, (s.packages i).balancer.powerLimit = some (limit i)
  le_max : ∀ i, limit i ≤ s.maxPkgPowerSetting
  nonneg : 0 ≤ slack
  le_sum : slack ≤ ∑ i, (s.maxPkgPowerSetting - limit i)

section Shares

variable {s : LeafRole numDomain} {limit : Fin numDomain → ℚ} {slack even : ℚ}

section

variable (h : HasRoom s limit slack)
include h

theorem HasRoom.headroom (i : Fin numDomain) :
    headroom s (some even) i = some (s.maxPkgPowerSetting - limit i - even) := by
  show Value.sub (some s.maxPkgPowerSetting) ((s.packages i).balancer.powerLimit.add _) = _
  rw [h.powerLimit i]
  show some (s.maxPkgPowerSetting - (limit i + even)) = _
  rw [sub_sub]

/-- The headroom that is left is the room that is left after the even share. -/
theorem HasRoom.totalHeadroom :
    totalHeadroom s (some even) = some (left (fun i => s.maxPkgPowerSetting - limit i) even) := by
  unfold PowerBalancerAgent.totalHeadroom LeafRole.indices
  simp only [h.headroom]
  rw [foldl_add, zero_add, left, Fin.sum_univ_def]

theorem HasRoom.minHeadroom :
    ∃ m, minHeadroom s = some m ∧ 0 ≤ m ∧ ∀ i, m ≤ s.maxPkgPowerSetting - limit i := by
  unfold PowerBalancerAgent.minHeadroom LeafRole.indices
  simp only [h.powerLimit]
  obtain ⟨m, hfold, -, hall, hnonneg⟩ := exists_foldl_min
    (fun i => s.maxPkgPowerSetting - limit i) (List.finRange numDomain) ((2 ^ 53 - 1) * 2 ^ 971)
  refine ⟨m, hfold, hnonneg ?_ fun i _ => sub_nonneg.mpr (h.le_max i), fun i => hall i ?_⟩
  · positivity
  · exact List.mem_finRange i

/-- **The even share** is one that every package has room for, and the rest is what it leaves. -/
theorem HasRoom.evenSlack :
    ∃ even, Feasible (fun i => s.maxPkgPowerSetting - limit i) even slack ∧
      evenSlack s (some slack) =
        .ok (some even, some (slack - Fintype.card (Fin numDomain) * even)) := by
  obtain ⟨m, hmin, hm, hroom⟩ := h.minHeadroom
  have hpos : (0 : ℚ) < numDomain := Nat.cast_pos.mpr s.numDomain_pos
  rw [Fintype.card_fin]
  unfold PowerBalancerAgent.evenSlack
  rw [Pio.Value.div_some hpos.ne', hmin]
  show ∃ even, _ ∧ (if decide (slack / numDomain < m) = true then _ else _) = _
  by_cases hlt : slack / numDomain < m
  · have hall : numDomain * (slack / numDomain) = slack := by field_simp
    refine ⟨slack / numDomain, ⟨div_nonneg h.nonneg hpos.le, fun i => hlt.le.trans (hroom i), ?_,
      h.le_sum⟩, ?_⟩
    · rw [Fintype.card_fin, hall]
    · rw [decide_eq_true hlt, if_pos rfl, hall, sub_self]
      rfl
  · have hle : m ≤ slack / numDomain := not_lt.mp hlt
    refine ⟨m, ⟨hm, hroom, ?_, h.le_sum⟩, ?_⟩
    · rw [Fintype.card_fin, mul_comm]
      exact (le_div_iff₀ hpos).mp hle
    · rw [decide_eq_false hlt, if_neg Bool.false_ne_true, mul_comm (numDomain : ℚ)]
      rfl

theorem HasRoom.shareCap (rest : ℚ) (i : Fin numDomain) :
    shareCap (s.packages i).balancer.powerLimit (PowerBalancerAgent.headroom s (some even) i)
        (PowerBalancerAgent.totalHeadroom s (some even)) (some even) (some rest) =
      .ok (some (limit i + share (fun i => s.maxPkgPowerSetting - limit i) even rest i)) := by
  rw [h.powerLimit, h.headroom, h.totalHeadroom]
  set total := left (fun i => s.maxPkgPowerSetting - limit i) even with htotal
  have hfactor : factor (some (s.maxPkgPowerSetting - limit i - even)) (some total) =
      .ok (some (if total ≠ 0 then (s.maxPkgPowerSetting - limit i - even) / total else 1)) := by
    unfold factor
    change (if decide (total ≠ 0) = true then _ else _) = _
    by_cases hzero : total = 0
    · rw [if_neg (by simp [hzero]), if_neg (not_not.mpr hzero)]
      rfl
    · rw [if_pos (by simp [hzero]), if_pos hzero, Pio.Value.div_some hzero]
  unfold PowerBalancerAgent.shareCap share
  rw [hfactor, ← htotal]
  show Except.ok (some (limit i + even + _ * rest)) = _
  rw [add_assoc]

/-- **`SendDownLimitStep::enter_step`** adds to each limit its share of the slack. -/
theorem HasRoom.enterSendDownLimit {policy : Policy}
    (hpolicy : policy.powerSlack = some slack) :
    ∃ even, Feasible (fun i => s.maxPkgPowerSetting - limit i) even slack ∧
      enterSendDownLimit policy s = .ok () (setStepsComplete true { s with
        packages := fun i => { s.packages i with
          balancer := (s.packages i).balancer.setPowerCap
            (some (limit i + share (fun i => s.maxPkgPowerSetting - limit i) even
              (slack - Fintype.card (Fin numDomain) * even) i)) } }) := by
  obtain ⟨even, hfeasible, heven⟩ := h.evenSlack
  refine ⟨even, hfeasible, ?_⟩
  have hret : ret (PowerBalancerAgent.evenSlack s policy.powerSlack) s =
      .ok (some even, some (slack - Fintype.card (Fin numDomain) * even)) s := by
    rw [hpolicy, heven]
    rfl
  unfold PowerBalancerAgent.enterSendDownLimit
  show (ret (PowerBalancerAgent.evenSlack s policy.powerSlack) >>= fun result => _) s = _
  rw [bind_of_ok hret]
  refine (bind_of_ok (forPackages_ok (fun _ => ()) fun i => ?_)).trans rfl
  show (ret (PowerBalancerAgent.shareCap _ _ _ _ _) >>= fun cap => _) (s.packages i) = _
  exact (bind_of_ok (by rw [h.shareCap]; rfl)).trans rfl

end

/-- **Slack redistribution conserves power.** -/
theorem enterSendDownLimit_caps {policy : Policy} (hpolicy : policy.powerSlack = some slack)
    (hlimit : ∀ i, (s.packages i).balancer.powerLimit = some (limit i))
    (hmax : ∀ i, limit i ≤ s.maxPkgPowerSetting) (hslack : 0 ≤ slack)
    (hsum : slack ≤ ∑ i, (s.maxPkgPowerSetting - limit i)) :
    ∃ (s' : LeafRole numDomain) (cap : Fin numDomain → ℚ),
      enterSendDownLimit policy s = .ok () s' ∧
      (∀ i, (s'.packages i).balancer.powerCap = some (cap i) ∧
        (s'.packages i).balancer.powerLimit = some (cap i)) ∧
      ∑ i, cap i = ∑ i, limit i + slack ∧
      ∀ i, limit i ≤ cap i ∧ cap i ≤ s.maxPkgPowerSetting := by
  obtain ⟨even, hfeasible, hrun⟩ := HasRoom.enterSendDownLimit ⟨hlimit, hmax, hslack, hsum⟩ hpolicy
  refine ⟨_, _, hrun, fun i => ⟨rfl, rfl⟩, ?_, fun i => ⟨?_, ?_⟩⟩
  · rw [Finset.sum_add_distrib, sum_share hfeasible]
  · exact le_add_of_nonneg_right (share_nonneg hfeasible i)
  · linarith [share_le hfeasible i]

/-- Two packages with headrooms of 10 W and of 30 W; the slack of 30 W is more than twice the least
headroom. -/
theorem enterSendDownLimit_caps_two :
    ∃ (s' : LeafRole 2) (cap : Fin 2 → ℚ),
      enterSendDownLimit { powerSlack := some 30 }
        { numDomain_pos := Nat.two_pos
          numNode := 1
          packages := fun i : Fin 2 =>
            { balancer := { controlLatency := 0, powerLimit := some (if i = 0 then 190 else 170) } }
          minPkgPowerSetting := 50
          maxPkgPowerSetting := 200
          isSingleNode := true } = .ok () s' ∧
      (∀ i, (s'.packages i).balancer.powerCap = some (cap i) ∧
        (s'.packages i).balancer.powerLimit = some (cap i)) ∧
      ∑ i, cap i = ∑ i : Fin 2, (if i = 0 then 190 else 170 : ℚ) + 30 ∧
      ∀ i, (if i = 0 then 190 else 170 : ℚ) ≤ cap i ∧ cap i ≤ 200 :=
  enterSendDownLimit_caps rfl (fun _ => rfl) (by decide +kernel) (by decide +kernel)
    (by decide +kernel)

end Shares

end Geopm.PowerBalancerAgent
