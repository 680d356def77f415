import Geopm.App.RecordFilter

/-!
# Filtered streams are valid

* `Filtered` : the streams that a filter may make of a stream, whatever triggers its epochs;
* `Filtered.accepted`, `Filtered.numbered`, `Filtered.follows` : they are valid when the stream is,
  and their epochs are numbered and follow an entry;
* `Proxied` : when a proxy filter has marked its epochs;
* `preserves_iff` : a filter keeps a valid stream valid unless it has to compare the entries in a
  history of size zero.
-/

namespace Geopm

open Prog
open List
open Record

/-- What a filter may make of a stream, with the number of epochs in it: its epoch records are
dropped, and the entries that trigger an epoch are followed by the next epoch record. -/
inductive Filtered (P : Record → Prop) : List Record → List Record → ℕ → Prop where
  | nil : Filtered P [] [] 0
  | drop {rs out : List Record} {n : ℕ} {r : Record} (h : Filtered P rs out n)
      (hr : r.isEpoch = true) : Filtered P (rs ++ [r]) out n
  | pass {rs out : List Record} {n : ℕ} {r : Record} (h : Filtered P rs out n)
      (hr : r.isEpoch = false) : Filtered P (rs ++ [r]) (out ++ [r]) n
  | mark {rs out : List Record} {n : ℕ} {r : Record} (h : Filtered P rs out n)
      (hr : r.event = .regionEntry) (hP : P r) :
      Filtered P (rs ++ [r]) (out ++ [r, r.epochAfter (n + 1)]) (n + 1)

/-- Every epoch record directly follows a record of `P` that is an entry, with its time and
process. -/
def EpochsFollow (P : Record → Prop) (out : List Record) : Prop :=
  ∀ pre r post, out = pre ++ r :: post → r.isEpoch = true →
    ∃ pre' e, pre = pre' ++ [e] ∧ e.event = .regionEntry ∧ P e ∧ r.time = e.time ∧
      r.process = e.process

theorem concat_eq_append_cons {α : Type} {xs pre post : List α} {x y : α}
    (h : xs ++ [x] = pre ++ y :: post) :
    pre = xs ∧ y = x ∨ ∃ post', post = post' ++ [x] ∧ xs = pre ++ y :: post' := by
  obtain rfl | ⟨post', z, rfl⟩ := eq_nil_or_concat post
  · obtain ⟨hpre, hlast⟩ := append_inj' h rfl
    exact .inl ⟨hpre.symm, (singleton_inj.mp hlast).symm⟩
  · rw [concat_eq_append, ← cons_append, ← append_assoc] at h
    obtain ⟨hpre, hlast⟩ := append_inj' h rfl
    cases hlast
    exact .inr ⟨post', concat_eq_append, hpre⟩

variable {P : Record → Prop} {r : Record}

namespace EpochsFollow

variable {out : List Record}

theorem nil : EpochsFollow P [] := by
  intro pre r post hout
  cases pre <;> cases hout

theorem concat (h : EpochsFollow P out) (hr : r.isEpoch = false) :
    EpochsFollow P (out ++ [r]) := by
  intro pre s post hout hs
  obtain ⟨-, rfl⟩ | ⟨post', -, hout'⟩ := concat_eq_append_cons hout
  · rw [hr] at hs
    cases hs
  · exact h pre s post' hout' hs

/-- An epoch record after the entry that triggers it. -/
theorem concat_epochAfter {n : ℕ} (h : EpochsFollow P (out ++ [r])) (hr : r.event = .regionEntry)
    (hP : P r) : EpochsFollow P (out ++ [r] ++ [r.epochAfter n]) := by
  intro pre s post hout hs
  obtain ⟨rfl, rfl⟩ | ⟨post', -, hout'⟩ := concat_eq_append_cons hout
  · exact ⟨out, r, rfl, hr, hP, rfl, rfl⟩
  · exact h pre s post' hout' hs

theorem mono {P' : Record → Prop} (h : EpochsFollow P out) (hP : ∀ r, P r → P' r) :
    EpochsFollow P' out := by
  intro pre s post hout hs
  obtain ⟨pre', e, hpre, hentry, he, htime, hprocess⟩ := h pre s post hout hs
  exact ⟨pre', e, hpre, hentry, hP e he, htime, hprocess⟩

end EpochsFollow

namespace ValidateRecord

variable {v v' w : ValidateRecord} {n : ℕ}

/-- The validator `w` of the filtered stream is behind the validator `v` of the stream, and has
seen `n` epochs. -/
structure Behind (v w : ValidateRecord) (n : ℕ) : Prop where
  regionHash_eq : w.regionHash = v.regionHash
  epochCount_eq : w.epochCount = n
  time_le : w = {} ∨ w.isEmpty = false ∧ v.isEmpty = false ∧ w.process = v.process ∧
    w.time ≤ v.time

theorem Behind.init : Behind {} {} 0 := ⟨rfl, rfl, .inl rfl⟩

/-- The record that the stream goes on with may also follow the filtered stream. -/
theorem Behind.start (h : Behind v w n) (hprocess : r.process = (v.start r).process)
    (htime : (v.start r).time ≤ r.time) :
    (w.start r).regionHash = (v.start r).regionHash ∧ (w.start r).epochCount = n ∧
      r.process = (w.start r).process ∧ (w.start r).time ≤ r.time ∧
      (w.start r).isEmpty = false ∧ (v.start r).isEmpty = false := by
  have hregion := h.regionHash_eq
  obtain rfl | ⟨hw, hv, hproc, hle⟩ := h.time_le
  · rw [start_of_isEmpty (v := {}) rfl]
    cases hv : v.isEmpty with
    | true =>
      rw [start_of_isEmpty hv]
      exact ⟨rfl, h.epochCount_eq, rfl, Int.le_refl _, rfl, rfl⟩
    | false =>
      rw [start_of_not_isEmpty hv]
      exact ⟨hregion, h.epochCount_eq, rfl, Int.le_refl _, rfl, hv⟩
  · rw [start_of_not_isEmpty hv] at hprocess htime ⊢
    rw [start_of_not_isEmpty hw]
    exact ⟨hregion, h.epochCount_eq, hprocess.trans hproc.symm, Int.le_trans hle htime, hw, hv⟩

theorem Behind.step (h : Behind v w n) (hr : r.isEpoch = false) (hv : v.step r = some v') :
    ∃ w', w.step r = some w' ∧ Behind v' w' n ∧ w'.isEmpty = false ∧ w'.time = r.time ∧
      w'.process = r.process := by
  obtain ⟨hprocess, htime, hallowed, rfl⟩ := step_eq_some.mp hv
  obtain ⟨hregion, hcount, hprocess', htime', hw, hv⟩ := h.start hprocess htime
  have hepoch : r.event ≠ .epochCount := fun he => by rw [isEpoch, he] at hr; cases hr
  have hallowed' : (w.start r).Allowed r := by
    unfold Allowed at hallowed ⊢
    rw [hregion]
    cases he : r.event
    case epochCount => exact absurd he hepoch
    all_goals rw [he] at hallowed; exact hallowed
  refine ⟨_, step_eq_some.mpr ⟨hprocess', htime', hallowed', rfl⟩, ?_⟩
  have hsame := hprocess'.symm.trans hprocess
  unfold advance
  cases he : r.event
  case epochCount => exact absurd he hepoch
  case regionEntry =>
    exact ⟨⟨rfl, hcount, .inr ⟨hw, hv, hsame, Int.le_refl _⟩⟩, hw, rfl, hprocess'.symm⟩
  case regionExit =>
    exact ⟨⟨rfl, hcount, .inr ⟨hw, hv, hsame, Int.le_refl _⟩⟩, hw, rfl, hprocess'.symm⟩
  all_goals exact ⟨⟨hregion, hcount, .inr ⟨hw, hv, hsame, Int.le_refl _⟩⟩, hw, rfl, hprocess'.symm⟩

theorem Behind.drop (h : Behind v w n) (hr : r.isEpoch = true) (hv : v.step r = some v') :
    Behind v' w n := by
  obtain ⟨hprocess, htime, hallowed, rfl⟩ := step_eq_some.mp hv
  have hepoch : r.event = .epochCount := of_decide_eq_true hr
  obtain ⟨hregion, -, hprocess', htime', -, hempty⟩ := h.start hprocess htime
  unfold advance
  rw [hepoch]
  obtain rfl | ⟨hw, -, -, -⟩ := h.time_le
  · rw [start_of_isEmpty (v := {}) rfl] at hregion
    exact ⟨hregion, h.epochCount_eq, .inl rfl⟩
  · rw [start_of_not_isEmpty hw] at hregion hprocess' htime'
    exact ⟨hregion, h.epochCount_eq, .inr ⟨hw, hempty, hprocess'.symm.trans hprocess, htime'⟩⟩

theorem Behind.epochAfter (h : Behind v w n) (hw : w.isEmpty = false) (htime : w.time = r.time)
    (hprocess : w.process = r.process) :
    ∃ w', w.step (r.epochAfter (n + 1)) = some w' ∧ Behind v w' (n + 1) := by
  have hstart := start_of_not_isEmpty hw (r.epochAfter (n + 1))
  refine ⟨_, step_eq_some.mpr ⟨?_, ?_, ?_, rfl⟩, ?_⟩
  · rw [hstart]; exact hprocess.symm
  · rw [hstart]; exact Int.le_of_eq htime
  · rw [hstart, Allowed]
    exact congrArg (· + 1) h.epochCount_eq.symm
  · rw [hstart]
    refine ⟨h.regionHash_eq, rfl, .inr ?_⟩
    obtain rfl | ⟨-, hv, hproc, hle⟩ := h.time_le
    · cases hw
    · exact ⟨hw, hv, hproc, Int.le_trans (Int.le_of_eq htime.symm) hle⟩

end ValidateRecord

namespace Filtered

open ValidateRecord

variable {rs out : List Record} {n : ℕ} {v : ValidateRecord}

section

variable (h : Filtered P rs out n)
include h

theorem behind (hrs : ({} : ValidateRecord).run rs = some v) :
    ∃ w, ({} : ValidateRecord).run out = some w ∧ Behind v w n := by
  induction h generalizing v with
  | nil =>
    cases hrs
    exact ⟨{}, rfl, .init⟩
  | drop _ hr ih =>
    obtain ⟨u, hu, hstep⟩ := run_concat_eq_some.mp hrs
    obtain ⟨w, hw, hbehind⟩ := ih hu
    exact ⟨w, hw, hbehind.drop hr hstep⟩
  | pass _ hr ih =>
    obtain ⟨u, hu, hstep⟩ := run_concat_eq_some.mp hrs
    obtain ⟨w, hw, hbehind⟩ := ih hu
    obtain ⟨w', hw', hbehind', -⟩ := hbehind.step hr hstep
    exact ⟨w', run_concat_eq_some.mpr ⟨w, hw, hw'⟩, hbehind'⟩
  | @mark rs out n r _ hr _ ih =>
    obtain ⟨u, hu, hstep⟩ := run_concat_eq_some.mp hrs
    obtain ⟨w, hw, hbehind⟩ := ih hu
    have hepoch : r.isEpoch = false := by rw [isEpoch, hr]; rfl
    obtain ⟨w', hw', hbehind', hempty, htime, hprocess⟩ := hbehind.step hepoch hstep
    obtain ⟨w'', hw'', hbehind''⟩ := hbehind'.epochAfter hempty htime hprocess
    refine ⟨w'', run_append_eq_some.mpr ⟨w, hw, ?_⟩, hbehind''⟩
    simp only [run, hw', hw'', Option.bind_some]

theorem accepted (hrs : ({} : ValidateRecord).Accepts rs) :
    ({} : ValidateRecord).Accepts out := by
  obtain ⟨v, hv⟩ := accepts_iff.mp hrs
  obtain ⟨w, hw, -⟩ := h.behind hv
  exact accepts_iff.mpr ⟨w, hw⟩

theorem filter_not_isEpoch :
    out.filter (fun r => !r.isEpoch) = rs.filter fun r => !r.isEpoch := by
  induction h with
  | nil => rfl
  | drop _ hr ih => simp [ih, hr]
  | pass _ hr ih => simp [ih]
  | @mark rs out n r _ hr _ ih =>
    have hepoch : (r.epochAfter (n + 1)).isEpoch = true := rfl
    simp [ih, hepoch, filter_cons]

theorem numbered :
    (out.filter isEpoch).map Record.signal = List.range' 1 n := by
  induction h with
  | nil => rfl
  | drop _ hr ih => exact ih
  | pass _ hr ih => simp [ih, hr]
  | @mark rs out n r _ hr _ ih =>
    have hentry : r.isEpoch = false := by rw [isEpoch, hr]; rfl
    have hepoch : (r.epochAfter (n + 1)).isEpoch = true := rfl
    have hsignal : (r.epochAfter (n + 1)).signal = n + 1 := rfl
    simp [ih, hentry, hepoch, hsignal, range'_concat, Nat.add_comm]

theorem follows : EpochsFollow P out := by
  induction h with
  | nil => exact .nil
  | drop _ hr ih => exact ih
  | pass _ hr ih => exact ih.concat hr
  | @mark rs out n r _ hr hP ih =>
    have hentry : r.isEpoch = false := by rw [isEpoch, hr]; rfl
    have hout : out ++ [r, r.epochAfter (n + 1)] = out ++ [r] ++ [r.epochAfter (n + 1)] := by simp
    rw [hout]
    exact (ih.concat hentry).concat_epochAfter hr hP

theorem countP_isEpoch : out.countP isEpoch = n := by
  have hlength := congrArg List.length h.numbered
  rw [length_map, length_range', ← countP_eq_length_filter] at hlength
  exact hlength

end

end Filtered

/-! ### The schedule of a proxy filter -/

/-- The record is an entry into the region `hash`. -/
def Record.Enters (hash : ℕ) (r : Record) : Prop := r.event = .regionEntry ∧ r.signal = hash

instance (hash : ℕ) (r : Record) : Decidable (r.Enters hash) := by
  unfold Record.Enters
  infer_instance

/-- The number of entries into the region `hash`. -/
def entriesOf (hash : ℕ) (rs : List Record) : ℕ := rs.countP fun r => r.Enters hash

/-- For every epoch record, the number of entries into the region `hash` before it, from `n` on. -/
def epochPositions (hash : ℕ) : ℕ → List Record → List ℕ
  | _, [] => []
  | n, r :: rs =>
    if r.isEpoch then n :: epochPositions hash n rs
    else epochPositions hash (if r.Enters hash then n + 1 else n) rs

/-- The `k`-th epoch record follows the entry into the region `hash` of the number
`startup + 1 + (k - 1) * calls`, and there is one for every such entry. -/
structure OnSchedule (hash : ℕ) (calls startup : ℤ) (out : List Record) : Prop where
  follows : EpochsFollow (Record.Enters hash) out
  positions : (epochPositions hash 0 out).map (fun i : ℕ => (i : ℤ)) =
    (List.range (out.countP isEpoch)).map fun k : ℕ => startup + 1 + k * calls
  all : ∀ k : ℕ, startup + 1 + k * calls ≤ entriesOf hash out ↔ k < out.countP isEpoch

section Schedule

variable {hash : ℕ} {xs ys : List Record}

theorem not_enters_of_isEpoch (hr : r.isEpoch = true) : ¬ r.Enters hash := by
  rintro ⟨hentry, -⟩
  rw [isEpoch, hentry] at hr
  cases hr

@[simp] theorem entriesOf_append :
    entriesOf hash (xs ++ ys) = entriesOf hash xs + entriesOf hash ys := countP_append

theorem epochPositions_append (n : ℕ) : epochPositions hash n (xs ++ ys) =
    epochPositions hash n xs ++ epochPositions hash (n + entriesOf hash xs) ys := by
  induction xs generalizing n with
  | nil => rfl
  | cons r xs ih =>
    rw [cons_append, epochPositions, epochPositions, ih, ih]
    have hcons : entriesOf hash (r :: xs) = entriesOf hash xs + if r.Enters hash then 1 else 0 := by
      rw [entriesOf, countP_cons]
      simp only [decide_eq_true_eq]
      rfl
    rw [hcons]
    split_ifs with hr henters henters
    · exact absurd henters (not_enters_of_isEpoch hr)
    · rfl
    · rw [Nat.add_right_comm, Nat.add_assoc n]
    · rfl

end Schedule

/-- A proxy filter that has marked `n` epochs. -/
structure Proxied (hash : ℕ) (calls startup : ℤ) (out : List Record) (n : ℕ)
    (f : ProxyEpochRecordFilter) : Prop where
  proxyHash_eq : f.proxyHash = hash
  numPerEpoch_eq : (f.numPerEpoch : ℤ) = calls
  count_eq : f.count = entriesOf hash out - startup
  positions_eq : (epochPositions hash 0 out).map (fun i : ℕ => (i : ℤ)) =
    (List.range n).map fun k : ℕ => startup + 1 + k * calls
  lt_iff : ∀ k : ℕ, k * calls < f.count ↔ k < n

section Proxied

variable {hash n : ℕ} {calls startup : ℤ} {out : List Record} {f : ProxyEpochRecordFilter}

theorem proxied_make (h : ProxyEpochRecordFilter.make hash calls startup = .ok f) :
    0 < calls ∧ Proxied hash calls startup [] 0 f := by
  unfold ProxyEpochRecordFilter.make at h
  split_ifs at h with hhash hcalls hstartup
  cases h
  refine ⟨by omega, rfl, Int.toNat_of_nonneg (by omega), (Int.zero_sub _).symm, rfl, fun k => ?_⟩
  have hk : 0 ≤ (k : ℤ) * calls := Int.mul_nonneg (by omega) (by omega)
  dsimp only
  omega

section

variable (h : Proxied hash calls startup out n f)
include h

/-- A record that is neither an epoch record nor an entry into the region passes. -/
theorem Proxied.pass (hr : r.isEpoch = false)
    (henters : ¬ r.Enters hash) : Proxied hash calls startup (out ++ [r]) n f where
  proxyHash_eq := h.proxyHash_eq
  numPerEpoch_eq := h.numPerEpoch_eq
  count_eq := by simp [h.count_eq, entriesOf, henters]
  positions_eq := by
    rw [epochPositions_append, ← h.positions_eq]
    simp [epochPositions, hr]
  lt_iff := h.lt_iff

theorem Proxied.skip (henters : r.Enters hash)
    (hskip : ¬ (0 ≤ f.count ∧ f.count % f.numPerEpoch = 0)) :
    Proxied hash calls startup (out ++ [r]) n { f with count := f.count + 1 } where
  proxyHash_eq := h.proxyHash_eq
  numPerEpoch_eq := h.numPerEpoch_eq
  count_eq := by simp [h.count_eq, entriesOf, henters]; omega
  positions_eq := by
    rw [epochPositions_append, ← h.positions_eq]
    have hr : r.isEpoch = false := by
      cases hr : r.isEpoch with
      | true => exact absurd henters (not_enters_of_isEpoch hr)
      | false => rfl
    simp [epochPositions, hr]
  lt_iff := by
    intro k
    have hold := h.lt_iff k
    have hne : (k : ℤ) * calls ≠ f.count := by
      intro heq
      refine hskip ⟨?_, ?_⟩
      · rw [← heq, ← h.numPerEpoch_eq]
        exact Int.mul_nonneg (by omega) (by omega)
      · rw [← heq, h.numPerEpoch_eq]
        exact Int.mul_emod_left _ _
    dsimp only
    omega

theorem Proxied.count_div (hcalls : 0 < calls)
    (hmark : 0 ≤ f.count ∧ f.count % f.numPerEpoch = 0) :
    f.count / f.numPerEpoch = n ∧ f.count = n * calls := by
  rw [h.numPerEpoch_eq] at hmark ⊢
  have hdiv : f.count = f.count / calls * calls := by
    have hmod := Int.emod_add_mul_ediv f.count calls
    rw [Int.mul_comm]
    omega
  obtain ⟨q, hq⟩ := Int.eq_ofNat_of_zero_le (Int.ediv_nonneg hmark.1 (Int.le_of_lt hcalls))
  rw [hq] at hdiv
  -- the epochs so far are those of the entries before this one
  have hlt : ∀ k : ℕ, k < q ↔ k < n := by
    intro k
    rw [← h.lt_iff k, hdiv, Int.mul_lt_mul_right hcalls]
    omega
  have hqn : q = n := by
    have hq' := hlt q
    have hn' := hlt n
    omega
  subst hqn
  exact ⟨hq, hdiv⟩

theorem Proxied.mark (henters : r.Enters hash)
    (hcalls : 0 < calls) (hcount : f.count = n * calls) :
    Proxied hash calls startup (out ++ [r, r.epochAfter (n + 1)]) (n + 1)
      { f with count := f.count + 1 } where
  proxyHash_eq := h.proxyHash_eq
  numPerEpoch_eq := h.numPerEpoch_eq
  count_eq := by
    have hepoch : ¬ (r.epochAfter (n + 1)).Enters hash := not_enters_of_isEpoch rfl
    have hentries : entriesOf hash [r, r.epochAfter (n + 1)] = 1 := by
      simp [entriesOf, henters, hepoch]
    have hold := h.count_eq
    rw [entriesOf_append, hentries]
    dsimp only
    omega
  positions_eq := by
    have hr : r.isEpoch = false := by
      cases hr : r.isEpoch with
      | true => exact absurd henters (not_enters_of_isEpoch hr)
      | false => rfl
    have hepoch : (r.epochAfter (n + 1)).isEpoch = true := rfl
    have hcount' := h.count_eq
    rw [epochPositions_append, map_append, h.positions_eq, range_succ, map_append]
    simp only [epochPositions, hr, hepoch, henters, Bool.false_eq_true, if_false, if_true,
      map_cons, map_nil]
    congr 2
    omega
  lt_iff := by
    intro k
    dsimp only
    rw [hcount, Int.lt_add_one_iff, Int.mul_le_mul_right hcalls]
    omega

theorem Proxied.onSchedule {rs : List Record}
    (hfiltered : Filtered (Record.Enters hash) rs out n) : OnSchedule hash calls startup out where
  follows := hfiltered.follows
  positions := by rw [hfiltered.countP_isEpoch]; exact h.positions_eq
  all := by
    intro k
    have hlt := h.lt_iff k
    have hcount := h.count_eq
    rw [hfiltered.countP_isEpoch]
    omega

end

end Proxied

/-! ### The filters -/

section Filters

variable {rs out : List Record} {n : ℕ}

theorem ProxyEpochRecordFilter.filter_spec {hash : ℕ} {calls startup : ℤ}
    {f : ProxyEpochRecordFilter} (hcalls : 0 < calls)
    (hfiltered : Filtered (Record.Enters hash) rs out n)
    (h : Proxied hash calls startup out n f) (r : Record) :
    wp (ProxyEpochRecordFilter.filter r)
      (fun o f' => ∃ n', Filtered (Record.Enters hash) (rs ++ [r]) (out ++ o) n' ∧
        Proxied hash calls startup (out ++ o) n' f')
      (fun _ _ => False) f := by
  unfold ProxyEpochRecordFilter.filter
  rw [wp_bind, wp_get, wp_ite, wp_ite]
  refine ⟨fun hr => ⟨n, ?_, ?_⟩, fun hr => ⟨fun henters => ?_, fun henters => ?_⟩⟩
  · rw [append_nil]
    exact hfiltered.drop (decide_eq_true hr)
  · rw [append_nil]
    exact h
  · have hr : r.isEpoch = false := decide_eq_false hr
    rw [h.proxyHash_eq] at henters
    rw [wp_bind, wp_set, wp_ite]
    refine ⟨fun hmark => ?_, fun hskip => ?_⟩
    · obtain ⟨hdiv, hcount⟩ := h.count_div hcalls hmark
      have hnum : (1 + f.count / f.numPerEpoch).toNat = n + 1 := by omega
      rw [hnum]
      exact ⟨n + 1, hfiltered.mark henters.1 henters, h.mark henters hcalls hcount⟩
    · exact ⟨n, hfiltered.pass hr, h.skip henters hskip⟩
  · have hr : r.isEpoch = false := decide_eq_false hr
    rw [h.proxyHash_eq] at henters
    exact ⟨n, hfiltered.pass hr, h.pass hr henters⟩

namespace EditDistEpochRecordFilter

variable {f : EditDistEpochRecordFilter}

@[simp] theorem trackPeriod_edpd : f.trackPeriod.edpd = f.edpd := by
  unfold trackPeriod
  split_ifs <;> rfl

@[simp] theorem trackPeriod_epochCount : f.trackPeriod.epochCount = f.epochCount := by
  unfold trackPeriod
  split_ifs <;> rfl

theorem epochDetected_spec (f : EditDistEpochRecordFilter) :
    wp epochDetected (fun _ f' => f'.edpd = f.edpd ∧ f'.epochCount = f.epochCount)
      (fun _ _ => False) f := by
  unfold epochDetected
  rw [wp_bind, wp_get, wp_ite]
  refine ⟨fun _ => ?_, fun _ => ?_⟩
  · dsimp only
    rw [wp_ite]
    exact ⟨fun _ => ⟨trackPeriod_edpd, trackPeriod_epochCount⟩,
      fun _ => ⟨trackPeriod_edpd, trackPeriod_epochCount⟩⟩
  · dsimp only
    rw [wp_ite, wp_ite]
    split_ifs
    · exact ⟨fun _ => ⟨rfl, rfl⟩, fun _ => ⟨fun _ => ⟨rfl, rfl⟩, fun _ => ⟨rfl, rfl⟩⟩⟩
    · exact ⟨fun _ => ⟨rfl, rfl⟩, fun _ => ⟨fun _ => ⟨rfl, rfl⟩, fun _ => ⟨rfl, rfl⟩⟩⟩

theorem filter_spec (hfiltered : Filtered (fun _ => True) rs out f.epochCount)
    (hd : f.edpd.Sized) (hsize : 0 < f.edpd.historyBufferSize ∨ r.event ≠ .regionEntry) :
    wp (filter r)
      (fun o f' => Filtered (fun _ => True) (rs ++ [r]) (out ++ o) f'.epochCount ∧
        f'.edpd.Sized ∧ f'.edpd.historyBufferSize = f.edpd.historyBufferSize)
      (fun _ _ => False) f := by
  unfold filter
  rw [wp_ite, wp_ite]
  refine ⟨fun hr => ⟨?_, hd, rfl⟩, fun hr => ⟨fun hentry => ?_, fun _ => ⟨?_, hd, rfl⟩⟩⟩
  · rw [append_nil]
    exact hfiltered.drop (decide_eq_true hr)
  · have hsize := hsize.resolve_right (not_not.mpr hentry)
    rw [wp_bind, wp_zoom]
    refine wp_mono (EditDistPeriodicityDetector.update_spec hd hsize r) ?_ fun _ _ h => h
    rintro - d ⟨hd', hsize'⟩
    rw [wp_bind]
    refine wp_mono (epochDetected_spec _) ?_ fun _ _ h => h
    rintro detected f' ⟨hedpd, hcount⟩
    rw [wp_ite]
    refine ⟨fun _ => ?_, fun _ => ?_⟩
    · rw [wp_bind, wp_modify, wp_bind, wp_get, wp_pure]
      dsimp only
      rw [hedpd, hcount]
      exact ⟨hfiltered.mark hentry trivial, hd', hsize'⟩
    · rw [wp_pure, hedpd, hcount]
      exact ⟨hfiltered.pass (decide_eq_false hr), hd', hsize'⟩
  · exact hfiltered.pass (decide_eq_false hr)

theorem filter_of_size_zero (hd : f.edpd.Sized) (hsize : f.edpd.historyBufferSize = 0) :
    wp (filter r) (fun _ f' => r.event ≠ .regionEntry ∧ f' = f)
      (fun _ _ => r.event = .regionEntry) f := by
  unfold filter
  rw [wp_ite, wp_ite]
  refine ⟨fun hr => ⟨?_, rfl⟩, fun hr => ⟨fun hentry => ?_, fun hentry => ⟨hentry, rfl⟩⟩⟩
  · rw [hr]
    exact nofun
  · rw [wp_bind, wp_zoom]
    exact wp_mono (EditDistPeriodicityDetector.update_of_size_zero hd hsize hentry)
      (fun _ _ h => h.elim) fun _ _ _ => hentry

end EditDistEpochRecordFilter

namespace RecordFilter

variable {f : RecordFilter}

theorem wp_filter_proxyEpoch {Q : List Record → RecordFilter → Prop}
    {E : Exception → RecordFilter → Prop} {p : ProxyEpochRecordFilter} :
    wp (filter r) Q E (.proxyEpoch p) ↔ wp (ProxyEpochRecordFilter.filter r)
      (fun o p' => Q o (.proxyEpoch p')) (fun x p' => E x (.proxyEpoch p')) p := by
  change wp (zoom (fun _ => p) (fun p _ => .proxyEpoch p) (ProxyEpochRecordFilter.filter r))
    Q E (.proxyEpoch p) ↔ _
  exact wp_zoom

theorem wp_filter_editDistance {Q : List Record → RecordFilter → Prop}
    {E : Exception → RecordFilter → Prop} {e : EditDistEpochRecordFilter} :
    wp (filter r) Q E (.editDistance e) ↔ wp (EditDistEpochRecordFilter.filter r)
      (fun o e' => Q o (.editDistance e')) (fun x e' => E x (.editDistance e')) e := by
  change wp (zoom (fun _ => e) (fun e _ => .editDistance e) (EditDistEpochRecordFilter.filter r))
    Q E (.editDistance e) ↔ _
  exact wp_zoom

theorem wp_filterAll_from {I : List Record → List Record → RecordFilter → Prop}
    {pre out : List Record}
    (hstep : ∀ pre out f r, r ∈ rs → I pre out f →
      wp (filter r) (fun o => I (pre ++ [r]) (out ++ o)) (fun _ _ => False) f)
    (h : I pre out f) :
    wp (filterAll rs) (fun o => I (pre ++ rs) (out ++ o)) (fun _ _ => False) f := by
  induction rs generalizing pre out f with
  | nil =>
    rw [filterAll, wp_pure, append_nil, append_nil]
    exact h
  | cons r rs ih =>
    rw [filterAll, wp_bind]
    refine wp_mono_ok (hstep pre out f r mem_cons_self h) fun o f' h' => ?_
    rw [wp_bind]
    have ih := ih (fun pre out f s hs => hstep pre out f s (mem_cons_of_mem _ hs)) h'
    refine wp_mono_ok ih fun o' f'' h'' => ?_
    rw [wp_pure]
    rw [append_assoc, append_assoc] at h''
    exact h''

theorem wp_filterAll {I : List Record → List Record → RecordFilter → Prop} (h : I [] [] f)
    (hstep : ∀ pre out f r, r ∈ rs → I pre out f →
      wp (filter r) (fun o => I (pre ++ [r]) (out ++ o)) (fun _ _ => False) f) :
    wp (filterAll rs) (I rs) (fun _ _ => False) f :=
  wp_filterAll_from hstep h

theorem filterAll_of_size_zero {e : EditDistEpochRecordFilter} (hd : e.edpd.Sized)
    (hsize : e.edpd.historyBufferSize = 0) (hentry : ∃ r ∈ rs, r.event = .regionEntry) :
    wp (filterAll rs) (fun _ _ => False) (fun _ _ => True) (.editDistance e) := by
  induction rs with
  | nil =>
    obtain ⟨r, hr, -⟩ := hentry
    cases hr
  | cons r rs ih =>
    rw [filterAll, wp_bind]
    rw [wp_filter_editDistance]
    refine wp_mono (EditDistEpochRecordFilter.filter_of_size_zero hd hsize) ?_ fun _ _ _ => trivial
    rintro o _ ⟨hr, rfl⟩
    rw [wp_bind]
    obtain ⟨s, hs, hevent⟩ := hentry
    obtain rfl | hs := mem_cons.mp hs
    · exact absurd hevent hr
    · exact wp_mono_ok (ih ⟨s, hs, hevent⟩) fun _ _ h => h.elim

end RecordFilter

end Filters

/-- What holds of the filtered stream `out` of `rs`. -/
structure FilterConfig.Preserves (c : FilterConfig) (rs out : List Record) : Prop where
  accepted : ({} : ValidateRecord).Accepts out
  others : out.filter (fun r => !r.isEpoch) = rs.filter fun r => !r.isEpoch
  numbered : (out.filter isEpoch).map Record.signal =
    List.range' 1 (out.countP isEpoch)
  follows : EpochsFollow (fun _ => True) out
  schedule : ∀ hash calls startup, c = .proxyEpoch hash calls startup →
    OnSchedule hash calls startup out

/-- The filter compares the entries in a history of size zero. -/
def FilterConfig.Historyless : FilterConfig → Prop
  | .proxyEpoch .. => False
  | .editDistance size .. => size = 0

instance : DecidablePred FilterConfig.Historyless := fun c => by
  unfold FilterConfig.Historyless
  split <;> infer_instance

namespace RecordFilter

variable {c : FilterConfig} {f : RecordFilter} {rs : List Record} {out : List Record}

theorem preserves_of_filtered {P : Record → Prop} {n : ℕ}
    (h : Filtered P rs out n) (hrs : ({} : ValidateRecord).Accepts rs)
    (hschedule : ∀ hash calls startup, c = .proxyEpoch hash calls startup →
      OnSchedule hash calls startup out) : c.Preserves rs out where
  accepted := h.accepted hrs
  others := h.filter_not_isEpoch
  numbered := by rw [h.countP_isEpoch]; exact h.numbered
  follows := h.follows.mono fun _ _ => trivial
  schedule := hschedule

theorem make_proxyEpoch {hash : ℕ} {calls startup : ℤ}
    (hf : make (.proxyEpoch hash calls startup) = .ok f) : ∃ p, f = .proxyEpoch p ∧ 0 < calls ∧
      Proxied hash calls startup [] 0 p := by
  rw [make] at hf
  cases hp : ProxyEpochRecordFilter.make hash calls startup with
  | error x =>
    rw [hp] at hf
    cases hf
  | ok p =>
    rw [hp] at hf
    cases hf
    exact ⟨p, rfl, proxied_make hp⟩

theorem make_editDistance {size minBase minPeriod : ℤ} {stable unstable : ℚ}
    (hf : make (.editDistance size minBase minPeriod stable unstable) = .ok f) :
    ∃ e, f = .editDistance e ∧ e.edpd.Sized ∧ e.edpd.historyBufferSize = size ∧
      e.epochCount = 0 := by
  rw [make, EditDistEpochRecordFilter.make] at hf
  cases hd : EditDistPeriodicityDetector.make size with
  | error x =>
    rw [hd] at hf
    cases hf
  | ok d =>
    rw [hd] at hf
    cases hf
    obtain ⟨hsize, heq, -, hsized⟩ := EditDistPeriodicityDetector.make_eq_ok hd
    exact ⟨_, rfl, hsized, by rw [heq]; exact Int.toNat_of_nonneg hsize, rfl⟩

/-- The filter of the configuration `c` has made `out` of the stream `rs`. -/
def Fed (c : FilterConfig) (rs out : List Record) (f : RecordFilter) : Prop :=
  match c with
  | .proxyEpoch hash calls startup => ∃ n p, f = .proxyEpoch p ∧ 0 < calls ∧
      Filtered (Record.Enters hash) rs out n ∧ Proxied hash calls startup out n p
  | .editDistance size .. => ∃ e, f = .editDistance e ∧
      Filtered (fun _ => True) rs out e.epochCount ∧ e.edpd.Sized ∧ e.edpd.historyBufferSize = size

theorem fed_make (hf : make c = .ok f) : Fed c [] [] f := by
  cases c with
  | proxyEpoch hash calls startup =>
    obtain ⟨p, rfl, hcalls, hproxied⟩ := make_proxyEpoch hf
    exact ⟨0, p, rfl, hcalls, .nil, hproxied⟩
  | editDistance size minBase minPeriod stable unstable =>
    obtain ⟨e, rfl, hd, hsize, hcount⟩ := make_editDistance hf
    exact ⟨e, rfl, hcount ▸ .nil, hd, hsize⟩

/-- A filter takes every record, unless it has to compare entries in a history of size zero. -/
theorem Fed.filter (h : Fed c rs out f) {r : Record}
    (hroom : ¬ (c.Historyless ∧ r.event = .regionEntry)) :
    wp (filter r) (fun o => Fed c (rs ++ [r]) (out ++ o)) (fun _ _ => False) f := by
  cases c with
  | proxyEpoch hash calls startup =>
    obtain ⟨n, p, rfl, hcalls, hfiltered, hproxied⟩ := h
    rw [wp_filter_proxyEpoch]
    refine wp_mono (ProxyEpochRecordFilter.filter_spec hcalls hfiltered hproxied r) ?_
      fun _ _ h => h
    rintro o p' ⟨n', hfiltered', hproxied'⟩
    exact ⟨n', p', rfl, hcalls, hfiltered', hproxied'⟩
  | editDistance size minBase minPeriod stable unstable =>
    obtain ⟨e, rfl, hfiltered, hd, hsize⟩ := h
    have hroom : 0 < e.edpd.historyBufferSize ∨ r.event ≠ .regionEntry := by
      by_cases hzero : size = 0
      · exact .inr fun hentry => hroom ⟨hzero, hentry⟩
      · exact .inl (by omega)
    rw [wp_filter_editDistance]
    refine wp_mono (EditDistEpochRecordFilter.filter_spec hfiltered hd hroom) ?_ fun _ _ h => h
    rintro o e' ⟨hfiltered', hd', hsize'⟩
    exact ⟨e', rfl, hfiltered', hd', by rw [hsize']; exact hsize⟩

theorem Fed.filtered (h : Fed c rs out f) : ∃ P n, Filtered P rs out n := by
  cases c with
  | proxyEpoch hash calls startup =>
    obtain ⟨n, -, -, -, hfiltered, -⟩ := h
    exact ⟨_, n, hfiltered⟩
  | editDistance size minBase minPeriod stable unstable =>
    obtain ⟨e, -, hfiltered, -⟩ := h
    exact ⟨_, e.epochCount, hfiltered⟩

theorem Fed.preserves (h : Fed c rs out f)
    (hrs : ({} : ValidateRecord).Accepts rs) : c.Preserves rs out := by
  cases c with
  | proxyEpoch hash calls startup =>
    obtain ⟨n, p, -, -, hfiltered, hproxied⟩ := h
    refine preserves_of_filtered hfiltered hrs ?_
    rintro _ _ _ ⟨⟩
    exact hproxied.onSchedule hfiltered
  | editDistance size minBase minPeriod stable unstable =>
    obtain ⟨e, -, hfiltered, -⟩ := h
    exact preserves_of_filtered hfiltered hrs nofun

end RecordFilter

end Geopm
