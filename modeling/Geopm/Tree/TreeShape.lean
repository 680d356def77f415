import Geopm.Tree.TreeComm

/-!
# The shape of the tree

* `mem_levelComm` : which ranks a communicator of a level has, and in which order;
* `wellFormed` : the communicators of a level are groups of its fan-out, each with one rank that
  controls it and joins the next level;
* `fanOut_prod` : the loop over the numbers of dimensions ends with side lengths for all nodes.
-/

namespace Geopm

open RowMajor
open List
open Nat

section Lists

variable {α : Type} {xs : List α} {p : α → Bool} {n : ℕ}

theorem le_length_takeWhile (h : n ≤ xs.length) :
    n ≤ (xs.takeWhile p).length ↔ ∀ x ∈ xs.take n, p x = true := by
  induction xs generalizing n with
  | nil =>
    obtain rfl := le_zero.mp h
    simp
  | cons x xs ih =>
    cases n with
    | zero => simp
    | succ n =>
      rw [take_succ_cons, forall_mem_cons, takeWhile_cons]
      cases hx : p x with
      | true =>
        rw [if_pos rfl, length_cons, succ_le_succ_iff, ih (le_of_succ_le_succ h)]
        simp
      | false => simp

theorem zeroLast_set {cs : List ℕ} {l : ℕ} (h : l < cs.length) :
    (zeroLast l cs).set (cs.length - 1 - l) 0 = zeroLast (l + 1) cs := by
  have hsub : cs.length - (l + 1) = cs.length - 1 - l := by omega
  have hsucc : cs.length - l = cs.length - 1 - l + 1 := by omega
  have hlt : cs.length - 1 - l < cs.length := by omega
  have hlen : (cs.take (cs.length - 1 - l)).length = cs.length - 1 - l := by
    rw [length_take]
    omega
  rw [zeroLast, zeroLast, hsub, hsucc, take_succ_eq_append_getElem hlt, append_assoc,
    set_append_right _ _ (by rw [hlen]), hlen, Nat.sub_self]
  rfl

end Lists

namespace TreeCommImp

variable {dims : List ℕ} {l n r c : ℕ} {cs : List ℕ}

theorem le_numLevelControlled (cs : List ℕ) (h : n ≤ cs.length) :
    n ≤ numLevelControlled cs ↔ ∀ c ∈ cs.drop (cs.length - n), c = 0 := by
  have hrev : (cs.drop (cs.length - n)).reverse = cs.reverse.take n := by
    rw [reverse_drop]
    congr 1
    omega
  rw [numLevelControlled, le_length_takeWhile (by rw [length_reverse]; exact h), ← hrev]
  simp

theorem numLevelControlled_le (cs : List ℕ) : numLevelControlled cs ≤ cs.length := by
  have h := takeWhile_prefix (p := (· == 0)) (l := cs.reverse) |>.length_le
  rw [length_reverse] at h
  exact h

theorem joinLevels_getElem? (dims : List ℕ) (r : ℕ) (cs : List ℕ) (h : l + n ≤ cs.length)
    (i : ℕ) :
    (joinLevels dims r cs.length l n (zeroLast l cs))[i]? =
      if i < n then some ⟨some (rank dims (zeroLast (l + i + 1) cs)), r⟩ else none := by
  induction n generalizing l i with
  | zero => rfl
  | succ n ih =>
    rw [joinLevels, zeroLast_set (by omega)]
    cases i with
    | zero => rfl
    | succ i =>
      rw [getElem?_cons_succ, ih (by omega)]
      simp only [succ_lt_succ_iff, Nat.add_right_comm, Nat.add_assoc]

theorem length_joinLevels (dims : List ℕ) (r root : ℕ) :
    (joinLevels dims r root l n cs).length = n := by
  induction n generalizing l cs with
  | zero => rfl
  | succ n ih => rw [joinLevels, length_cons, ih]

theorem maxLevel_le (dims : List ℕ) (r : ℕ) : (initLevel dims r).maxLevel ≤ dims.length := by
  have h := numLevelControlled_le (coords dims r)
  rw [length_coords] at h
  unfold initLevel
  dsimp only
  split_ifs <;> omega

theorem lt_maxLevel_iff (hl : l < dims.length) :
    l < (initLevel dims r).maxLevel ↔ l ≤ numLevelControlled (coords dims r) := by
  unfold initLevel
  dsimp only
  split_ifs <;> omega

theorem length_splits (dims : List ℕ) (r : ℕ) :
    (initLevel dims r).splits.length = dims.length := by
  have h := maxLevel_le dims r
  unfold initLevel at h ⊢
  dsimp only at h ⊢
  rw [length_append, length_joinLevels, length_replicate]
  omega

theorem splitAt_eq (hl : l < dims.length) :
    splitAt dims l r = some (if l ≤ numLevelControlled (coords dims r) then
      ⟨some (rank dims (zeroLast (l + 1) (coords dims r))), r⟩ else ⟨none, 0⟩) := by
  have hmax := maxLevel_le dims r
  have hlt := lt_maxLevel_iff (r := r) hl
  have hget := joinLevels_getElem? (l := 0) (n := (initLevel dims r).maxLevel) dims r
    (coords dims r) (by rw [length_coords]; omega) l
  rw [length_coords, Nat.zero_add, zeroLast_zero] at hget
  unfold splitAt
  have hsplits : (initLevel dims r).splits =
    joinLevels dims r dims.length 0 (initLevel dims r).maxLevel (coords dims r) ++
      List.replicate (dims.length - (initLevel dims r).maxLevel) ⟨none, 0⟩ := rfl
  rw [hsplits, getElem?_append, length_joinLevels, hget, getElem?_replicate]
  split_ifs with h₁ h₂ h₃ h₄ <;> first | rfl | omega

theorem color_splitAt_iff (hr : r < dims.prod) (hl : l < dims.length) :
    (splitAt dims l r).bind Split.color = some c ↔
      weight dims l ∣ r ∧ r / weight dims (l + 1) * weight dims (l + 1) = c := by
  have hctl := le_numLevelControlled (n := l) (coords dims r)
    (by rw [length_coords]; omega)
  rw [length_coords, drop_coords_iff hr (by omega)] at hctl
  rw [splitAt_eq hl, ← hctl, Option.bind_some]
  split_ifs with h
  · rw [rank_zeroLast hr (by omega)]
    simp [h]
  · simp [h]

theorem key_of_color (hl : l < dims.length)
    (h : (splitAt dims l r).bind Split.color = some c) :
    (splitAt dims l r).elim 0 Split.key = r := by
  rw [splitAt_eq hl] at h ⊢
  split_ifs at h ⊢
  · rfl
  · cases h

theorem commSplit_eq (hl : l < dims.length) : commSplit dims.prod (splitAt dims l) c =
    (List.range dims.prod).filter fun r => (splitAt dims l r).bind Split.color = some c := by
  refine List.mergeSort_of_pairwise ?_
  have hsorted := (pairwise_lt_range (n := dims.prod)).filter
    fun r => (splitAt dims l r).bind Split.color = some c
  refine hsorted.imp_of_mem fun hr hr' hlt => ?_
  have hr := key_of_color hl (of_decide_eq_true (mem_filter.mp hr).2)
  have hr' := key_of_color hl (of_decide_eq_true (mem_filter.mp hr').2)
  rw [hr, hr']
  exact decide_eq_true (Nat.le_of_lt hlt)

theorem levelComm_eq_nil (hr : r < dims.prod) (hl : l < dims.length) (h : ¬ weight dims l ∣ r) :
    levelComm dims l r = [] := by
  unfold levelComm
  cases hc : (splitAt dims l r).bind Split.color with
  | none => rfl
  | some c => exact absurd ((color_splitAt_iff hr hl).mp hc).1 h

theorem levelComm_eq_filter (hr : r < dims.prod) (hl : l < dims.length) (h : weight dims l ∣ r) :
    levelComm dims l r = (List.range dims.prod).filter fun r' =>
      weight dims l ∣ r' ∧ r' / weight dims (l + 1) = r / weight dims (l + 1) := by
  have hc := (color_splitAt_iff hr hl).mpr ⟨h, rfl⟩
  have hpos : 0 < weight dims (l + 1) :=
    pos_of_dvd_of_pos (weight_dvd_prod dims _) (by omega)
  unfold levelComm
  rw [hc]
  dsimp only
  rw [commSplit_eq hl]
  refine filter_congr fun r' hr' => decide_eq_decide.mpr ?_
  rw [color_splitAt_iff (mem_range.mp hr') hl, Nat.mul_left_inj (by omega)]

theorem mem_levelComm (hr : r < dims.prod) (hl : l < dims.length) : n ∈ levelComm dims l r ↔
    n < dims.prod ∧ weight dims l ∣ r ∧ weight dims l ∣ n ∧
      n / weight dims (l + 1) = r / weight dims (l + 1) := by
  by_cases h : weight dims l ∣ r
  · rw [levelComm_eq_filter hr hl h, mem_filter, mem_range, decide_eq_true_iff]
    simp [h]
  · rw [levelComm_eq_nil hr hl h]
    simp [h]

theorem levelComm_eq_map {d : ℕ} (hr : r < dims.prod) (hd : dims.reverse[l]? = some d)
    (h : weight dims l ∣ r) : levelComm dims l r =
      (List.range d).map fun x => r / weight dims (l + 1) * weight dims (l + 1) +
        x * weight dims l := by
  have hl : l < dims.length := by
    obtain ⟨hl, -⟩ := List.getElem?_eq_some_iff.mp hd
    rwa [length_reverse] at hl
  have hpos : 0 < weight dims l := pos_of_dvd_of_pos (weight_dvd_prod dims _) (by omega)
  have hleft : (levelComm dims l r).Pairwise (· < ·) := by
    rw [levelComm_eq_filter hr hl h]
    exact pairwise_lt_range.filter _
  have hright : ((List.range d).map fun x => r / weight dims (l + 1) * weight dims (l + 1) +
      x * weight dims l).Pairwise (· < ·) := by
    refine pairwise_map.mpr (pairwise_lt_range.imp fun hlt => ?_)
    exact Nat.add_lt_add_left (Nat.mul_lt_mul_of_pos_right hlt hpos) _
  refine List.Perm.eq_of_pairwise ?_ hleft hright ?_
  · intro a b _ _ hab hba
    omega
  · refine (perm_ext_iff_of_nodup (hleft.imp Nat.ne_of_lt) (hright.imp Nat.ne_of_lt)).mpr ?_
    intro n
    have hpos' : 0 < weight dims (l + 1) :=
      pos_of_dvd_of_pos (weight_dvd_prod dims _) (by omega)
    have hdpos : 0 < d := by
      rw [weight_succ hd] at hpos'
      exact Nat.pos_of_mul_pos_right hpos'
    have hblock := dvd_and_div_eq_iff (q := r / weight dims (l + 1)) (n := n) hpos hdpos
    rw [← weight_succ hd] at hblock
    simp only [mem_levelComm hr hl, mem_map, mem_range, ← hblock]
    exact ⟨fun hn => hn.2.2, fun hn => ⟨lt_prod_of_div_eq hr hn.2, h, hn⟩⟩

theorem exists_fanOut (hl : l < dims.length) : ∃ d, dims.reverse[l]? = some d :=
  ⟨_, getElem?_eq_getElem (by rwa [length_reverse])⟩

/-- The rank that the rank `r` and the others of its communicator of the level report to. -/
def leaderOf (dims : List ℕ) (l r : ℕ) : ℕ := r / weight dims (l + 1) * weight dims (l + 1)

section

variable (hr : r < dims.prod)
include hr

theorem leaderOf_mem (hl : l < dims.length) (h : weight dims l ∣ r) :
    leaderOf dims l r ∈ levelComm dims l r := by
  have hpos : 0 < weight dims (l + 1) :=
    pos_of_dvd_of_pos (weight_dvd_prod dims _) (by omega)
  have hle : leaderOf dims l r ≤ r := div_mul_le_self r _
  obtain ⟨d, hd⟩ := exists_fanOut hl
  refine (mem_levelComm hr hl).mpr ⟨by omega, h, ?_, Nat.mul_div_cancel _ hpos⟩
  refine Nat.dvd_mul_left_of_dvd ?_ _
  rw [weight_succ hd]
  exact Nat.dvd_mul_left _ _

/-- The leader is the first rank of the communicator. -/
theorem idxOf_leaderOf (hl : l < dims.length) (h : weight dims l ∣ r) :
    (levelComm dims l r).idxOf (leaderOf dims l r) = 0 := by
  have hmem := leaderOf_mem hr hl h
  obtain ⟨d, hd⟩ := exists_fanOut hl
  rw [levelComm_eq_map hr hd h] at hmem ⊢
  cases d with
  | zero => cases hmem
  | succ d =>
    rw [range_succ_eq_map, map_cons, Nat.zero_mul, Nat.add_zero]
    exact idxOf_cons_self

theorem dvd_iff_eq_leaderOf (hl : l < dims.length) {m : ℕ}
    (hm : m ∈ levelComm dims l r) : weight dims (l + 1) ∣ m ↔ m = leaderOf dims l r := by
  obtain ⟨-, -, -, heq⟩ := (mem_levelComm hr hl).mp hm
  rw [leaderOf, ← heq]
  exact ⟨fun hdvd => (Nat.div_mul_cancel hdvd).symm, fun hm => ⟨_, hm.trans (Nat.mul_comm _ _)⟩⟩

theorem lt_maxLevel_iff_dvd (hl : l < dims.length) :
    l < (initLevel dims r).maxLevel ↔ weight dims l ∣ r := by
  have hctl := le_numLevelControlled (n := l) (coords dims r) (by rw [length_coords]; omega)
  rw [length_coords, drop_coords_iff hr (by omega)] at hctl
  rw [lt_maxLevel_iff hl, hctl]

theorem lt_numLevelCtl_iff (hl : l < dims.length) :
    l < (make dims r).numLevelCtl ↔ weight dims (l + 1) ∣ r := by
  have hctl := le_numLevelControlled (n := l + 1) (coords dims r) (by rw [length_coords]; omega)
  rw [length_coords, drop_coords_iff hr (by omega)] at hctl
  exact hctl

end

theorem levelRank_eq (h : l < (initLevel dims r).maxLevel) :
    (make dims r).levelRank l = .ok ((levelComm dims l r).idxOf r) := by
  unfold levelRank make
  dsimp only
  rw [if_neg (by omega), Int.toNat_natCast, getElem?_map, getElem?_range h]
  rfl

theorem levelSize_eq {d : ℕ} (hd : dims.reverse[l]? = some d) (r : ℕ) :
    (make dims r).levelSize l = .ok d := by
  obtain ⟨hl, -⟩ := List.getElem?_eq_some_iff.mp hd
  unfold levelSize make
  dsimp only
  rw [if_neg (by omega), Int.toNat_natCast, getD_eq_getElem?_getD, hd]
  rfl

/-- The tree that the ranks build. -/
structure WellFormed (dims : List ℕ) : Prop where
  /-- Every rank takes part in the same number of collective splits. -/
  splits : ∀ r < dims.prod, (initLevel dims r).splits.length = (make dims r).rootLevel
  /-- The ranks whose last coordinates are zero join a level. -/
  joins : ∀ l < dims.length, ∀ r < dims.prod,
    r ∈ levelComm dims l r ↔ ∀ c ∈ (coords dims r).drop (dims.length - l), c = 0
  /-- The communicators of a level have no rank in common. -/
  disjoint : ∀ l < dims.length, ∀ r < dims.prod, ∀ m ∈ levelComm dims l r,
    m < dims.prod ∧ levelComm dims l m = levelComm dims l r
  size : ∀ l < dims.length, ∀ r < dims.prod, r ∈ levelComm dims l r →
    (levelComm dims l r).Nodup ∧ (make dims r).levelSize l = .ok (levelComm dims l r).length
  /-- One rank of a communicator controls the level, and it alone joins the next one. -/
  leader : ∀ l < dims.length, ∀ r < dims.prod, r ∈ levelComm dims l r →
    ∃ c ∈ levelComm dims l r, (make dims c).levelRank l = .ok 0 ∧
      (∀ m ∈ levelComm dims l r, l < (make dims m).numLevelCtl ↔ m = c) ∧
      (l + 1 < dims.length → ∀ m ∈ levelComm dims l r, m ∈ levelComm dims (l + 1) m ↔ m = c)
  root : ∃ r < dims.prod, ∀ m < dims.prod,
    (make dims m).numLevelCtl = (make dims m).rootLevel ↔ m = r

/-- The ranks of a grid build a tree. -/
theorem wellFormed (hdims : 0 < dims.prod) : WellFormed dims where
  splits r _ := length_splits dims r
  joins l hl r hr := by
    rw [mem_levelComm hr hl, drop_coords_iff hr (Nat.le_of_lt hl)]
    exact ⟨fun h => h.2.1, fun h => ⟨hr, h, h, rfl⟩⟩
  disjoint l hl r hr m hm := by
    obtain ⟨hlt, hdvd, hdvd', heq⟩ := (mem_levelComm hr hl).mp hm
    refine ⟨hlt, ?_⟩
    rw [levelComm_eq_filter hlt hl hdvd', levelComm_eq_filter hr hl hdvd, heq]
  size l hl r hr hmem := by
    obtain ⟨-, hdvd, -⟩ := (mem_levelComm hr hl).mp hmem
    obtain ⟨d, hd⟩ := exists_fanOut hl
    rw [levelSize_eq hd]
    refine ⟨?_, by rw [levelComm_eq_map hr hd hdvd, length_map, length_range]⟩
    rw [levelComm_eq_filter hr hl hdvd]
    exact nodup_range.filter _
  leader l hl r hr hmem := by
    obtain ⟨-, hdvd, -⟩ := (mem_levelComm hr hl).mp hmem
    have hleader := leaderOf_mem hr hl hdvd
    obtain ⟨hlt, -, hdvd', heq⟩ := (mem_levelComm hr hl).mp hleader
    have hcomm : levelComm dims l (leaderOf dims l r) = levelComm dims l r := by
      rw [levelComm_eq_filter hlt hl hdvd', levelComm_eq_filter hr hl hdvd, heq]
    refine ⟨leaderOf dims l r, hleader, ?_, fun m hm => ?_, fun hl' m hm => ?_⟩
    · rw [levelRank_eq ((lt_maxLevel_iff_dvd hlt hl).mpr hdvd'), hcomm,
        idxOf_leaderOf hr hl hdvd]
    · have hm' := ((mem_levelComm hr hl).mp hm).1
      rw [lt_numLevelCtl_iff hm' hl, dvd_iff_eq_leaderOf hr hl hm]
    · have hm' := ((mem_levelComm hr hl).mp hm).1
      rw [mem_levelComm hm' hl', ← dvd_iff_eq_leaderOf hr hl hm]
      exact ⟨fun h => h.2.1, fun h => ⟨hm', h, h, rfl⟩⟩
  root := by
    refine ⟨0, hdims, fun m hm => ?_⟩
    have hle := numLevelControlled_le (coords dims m)
    have hctl := le_numLevelControlled (n := dims.length) (coords dims m)
      (by rw [length_coords])
    rw [length_coords, drop_coords_iff hm (Nat.le_refl _), weight_length] at hctl
    rw [length_coords] at hle
    have hiff : (make dims m).numLevelCtl = (make dims m).rootLevel ↔
        dims.length ≤ numLevelControlled (coords dims m) :=
      ⟨fun h => Nat.le_of_eq h.symm, fun h => Nat.le_antisymm hle h⟩
    rw [hiff, hctl]
    exact ⟨fun h => eq_zero_of_dvd_of_lt h hm, fun h => h ▸ Nat.dvd_zero _⟩

end TreeCommImp

/-! ### The side lengths -/

namespace TreeComm

/-- What `MPI_Dims_create` returns for `num` ranks and `ndims` dimensions. -/
structure IsDims (num ndims : ℕ) (dims : List ℕ) : Prop where
  length_eq : dims.length = ndims
  prod_eq : dims.prod = num
  nonincreasing : dims.Pairwise (· ≥ ·)

section FanOut

variable {dimsCreate : ℕ → ℕ → List ℕ} {num : ℕ} {dims : List ℕ}

/-- While the last side is not one, every dimension doubles the number of ranks. -/
theorem IsDims.two_pow_le {ndims : ℕ} (h : IsDims num ndims dims) (hnum : 0 < num)
    (hlast : dims.getLastD 0 ≠ 1) : 2 ^ ndims ≤ num := by
  have hprod := h.prod_eq
  rw [← h.length_eq, ← hprod]
  obtain rfl | ⟨init, z, rfl⟩ := eq_nil_or_concat dims
  · exact Nat.le_refl _
  rw [concat_eq_append] at h hlast hprod ⊢
  rw [prod_append, prod_singleton] at hprod
  have hz : 2 ≤ z := by
    have hpos : z ≠ 0 := fun hz => by rw [hz, Nat.mul_zero] at hprod; omega
    rw [getLastD_concat] at hlast
    omega
  refine pow_card_le_prod _ _ fun x hx => ?_
  obtain hx | hx := mem_append.mp hx
  · have hge := (pairwise_append.mp h.nonincreasing).2.2 x hx z mem_cons_self
    omega
  · rw [mem_singleton.mp hx]
    exact hz

section

variable (hcreate : ∀ ndims, 0 < ndims → IsDims num ndims (dimsCreate num ndims))
include hcreate

theorem fanOutLoop_eq (hnum : 0 < num) (maxFanOut : ℕ) {fuel : ℕ} (h : IsDims num dims.length dims)
    (hfuel : num < 2 ^ (dims.length + fuel)) :
    ∃ out, (∀ fuel' > fuel, fanOutLoop dimsCreate num maxFanOut fuel' dims = some out) ∧
      out.prod = num := by
  induction fuel generalizing dims with
  | zero =>
    refine ⟨dims, fun fuel' hlt => ?_, h.prod_eq⟩
    obtain ⟨fuel', rfl⟩ := exists_eq_succ_of_ne_zero (Nat.ne_of_gt hlt)
    refine if_neg fun hloop => ?_
    have hpow := h.two_pow_le hnum hloop.2
    rw [Nat.add_zero] at hfuel
    omega
  | succ fuel ih =>
    by_cases hloop : maxFanOut < dims.headD 0 ∧ dims.getLastD 0 ≠ 1
    · have hnext := hcreate (dims.length + 1) (succ_pos _)
      have hnext' : IsDims num (dimsCreate num (dims.length + 1)).length
          (dimsCreate num (dims.length + 1)) := by rw [hnext.length_eq]; exact hnext
      have hfuel' : num < 2 ^ ((dimsCreate num (dims.length + 1)).length + fuel) := by
        rw [hnext.length_eq, Nat.add_assoc, Nat.add_comm 1]
        exact hfuel
      obtain ⟨out, hout, hprod⟩ := ih hnext' hfuel'
      refine ⟨out, fun fuel' hlt => ?_, hprod⟩
      obtain ⟨fuel', rfl⟩ := exists_eq_succ_of_ne_zero (Nat.ne_of_gt (zero_lt_of_lt hlt))
      rw [fanOutLoop, if_pos hloop]
      exact hout fuel' (lt_of_succ_lt_succ hlt)
    · refine ⟨dims, fun fuel' hlt => ?_, h.prod_eq⟩
      obtain ⟨fuel', rfl⟩ := exists_eq_succ_of_ne_zero (Nat.ne_of_gt (zero_lt_of_lt hlt))
      exact if_neg hloop

theorem fanOut_prod (hnum : 0 < num) (maxFanOut : ℕ) :
    ∃ out, (∀ fuel > num, fanOut dimsCreate num maxFanOut fuel = some out) ∧
      out.prod = num := by
  unfold fanOut
  split_ifs with hone
  · have hinit : IsDims num [num].length [num] :=
      ⟨rfl, prod_singleton, pairwise_singleton _ _⟩
    have hfuel : num < 2 ^ ([num].length + num) :=
      Nat.lt_of_lt_of_le Nat.lt_two_pow_self (Nat.pow_le_pow_right (by omega) (by simp))
    obtain ⟨out, hout, hprod⟩ := fanOutLoop_eq hcreate hnum maxFanOut hinit hfuel
    refine ⟨_, fun fuel hlt => by rw [hout fuel hlt]; rfl, ?_⟩
    rw [prod_reverse]
    split_ifs with hlast
    · obtain rfl | ⟨init, z, rfl⟩ := eq_nil_or_concat out
      · exact absurd hlast.1 (by simp)
      · rw [concat_eq_append, getLastD_concat] at hlast
        rw [concat_eq_append, dropLast_concat, ← hprod, concat_eq_append,
          prod_append, prod_singleton, hlast.2, Nat.mul_one]
    · exact hprod
  · exact ⟨[], fun _ _ => rfl, by rw [prod_nil]; omega⟩

end

end FanOut

/-- The ranks of every grid build a tree, and there is a grid for every number of nodes. -/
theorem tree_wellFormed : (∀ dims : List ℕ, 0 < dims.prod → TreeCommImp.WellFormed dims) ∧
    ∀ (dimsCreate : ℕ → ℕ → List ℕ) (num maxFanOut : ℕ), 0 < num →
      (∀ ndims, 0 < ndims → IsDims num ndims (dimsCreate num ndims)) →
      ∃ out, (∀ fuel > num, fanOut dimsCreate num maxFanOut fuel = some out) ∧ out.prod = num :=
  ⟨fun _ hdims => TreeCommImp.wellFormed hdims,
    fun _ _ maxFanOut hnum hcreate => fanOut_prod hcreate hnum maxFanOut⟩

/-- Six nodes, two of them children of the root. -/
theorem tree_wellFormed_six : TreeCommImp.WellFormed [2, 3] ∧
    ∃ out, (∀ fuel > 6, fanOut (fun num ndims => if ndims = 1 then [num]
      else 3 :: 2 :: List.replicate (ndims - 2) 1) 6 2 fuel = some out) ∧ out.prod = 6 := by
  refine ⟨tree_wellFormed.1 [2, 3] (by decide), tree_wellFormed.2 _ 6 2 (by decide) ?_⟩
  intro ndims hpos
  split_ifs with hone
  · exact ⟨hone.symm, rfl, pairwise_singleton _ _⟩
  · refine ⟨?_, ?_, ?_⟩
    · simp only [length_cons, length_replicate]
      omega
    · simp
    · simp [pairwise_replicate]

end TreeComm

end Geopm
