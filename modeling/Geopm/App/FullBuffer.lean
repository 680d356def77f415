import Geopm.App.LogSteps

/-!
# A record log whose buffer is full

The application goes on after an exception, so the map may describe a record that has not been
written.

* `Sound` : what the map and the buffer have in common in every run that does not use the index of
  such a record;
* `Lost` : the regions for which a call has been refused since the last dump;
* `inRange_iff` : the indices are in range exactly when no such region is left.
-/

namespace Geopm

open Prog
open List

variable {h : ℕ}

namespace RecordLog

/-- The index that the map has for the record of a region is that of a record. -/
def HasRecord (R : RecordLog) (h : ℕ) : Prop :=
  ∀ info i, R.enterMap h = some info → info.recordIdx = some i → i < R.records.length

/-- The record is the entry into a region, or it did not fit. -/
def Pending (records : List Record) (h i : ℕ) : Prop :=
  i = maxRecord ∧ records.length = maxRecord ∨
    ∃ r, records[i]? = some r ∧ r.event = .regionEntry ∧ r.signal = h

/-- The map describes the buffer, apart from entries that have been refused: their index is that of
the first record that does not fit. -/
structure Sound (R : RecordLog) : Prop where
  few : R.records.length ≤ maxRecord
  inRange : R.outOfRange = false
  /-- Each short region has a record of its own. -/
  counted : (R.records.filter fun r => r.event == .shortRegion).length = R.regions.length
  /-- An element with a record but no region is that of an entry. -/
  pending : ∀ h info i, R.enterMap h = some info → info.recordIdx = some i →
    info.regionIdx = none → Pending R.records h i
  short : ∀ h info g, R.enterMap h = some info → info.regionIdx = some g →
    g < R.regions.length ∧ ∃ i, info.recordIdx = some i ∧ i < R.records.length

variable {R R' : RecordLog} {c : LogCall} {t : ℤ}

section Sound

/-- There are no more short regions than records. -/
theorem Sound.regions_le (hs : R.Sound) : R.regions.length ≤ R.records.length :=
  hs.counted ▸ length_filter_le _ _

theorem Sound.indexed (hs : R.Sound) : R.Indexed := by
  intro h info hmap hrec
  cases hreg : info.regionIdx with
  | none => rfl
  | some g =>
    obtain ⟨-, i, hi, -⟩ := hs.short h info g hmap hreg
    rw [hrec] at hi
    cases hi

@[simp] theorem reset_outOfRange (l : RecordLog) : l.reset.outOfRange = l.outOfRange := by
  obtain ⟨m, hm⟩ := l.reset_eq
  rw [hm]

/-- The elements that `check_reset` leaves in an empty buffer have no indices. -/
theorem enterMap_of_nil (hnil : R.records = []) {info : RegionEnter}
    (hmap : R.reset.enterMap h = some info) : info.recordIdx = none ∧ info.regionIdx = none := by
  rw [reset_enterMap hnil] at hmap
  split_ifs at hmap with heq
  obtain ⟨info', -, hcarried⟩ := Option.bind_eq_some_iff.mp hmap
  obtain ⟨-, rfl⟩ := carried_eq_some.mp hcarried
  exact ⟨rfl, rfl⟩

/-- After `check_reset` the map describes an empty buffer. -/
theorem sound_reset_of_nil (hnil : R.records = []) (hregions : R.regions = [])
    (hrange : R.outOfRange = false) : R.reset.Sound where
  few := by rw [reset_records, hnil]; exact Nat.zero_le _
  inRange := by
    obtain ⟨m, hm⟩ := R.reset_eq
    rw [hm]
    exact hrange
  counted := by rw [reset_records, reset_regions, hnil, hregions]; rfl
  pending h info i hmap hi := by
    rw [(enterMap_of_nil hnil hmap).1] at hi
    cases hi
  short h info g hmap hg := by
    rw [(enterMap_of_nil hnil hmap).2] at hg
    cases hg

theorem Sound.reset (hs : R.Sound) : R.reset.Sound := by
  by_cases hnil : R.records = []
  · have hle := hs.regions_le
    rw [hnil, length_nil, Nat.le_zero] at hle
    exact sound_reset_of_nil hnil (length_eq_zero_iff.mp hle) hs.inRange
  · rw [reset_of_ne_nil hnil]
    exact hs

theorem Pending.append {rs : List Record} {i : ℕ} (hp : Pending rs h i)
    (hroom : rs.length < maxRecord) (r : Record) : Pending (rs ++ [r]) h i := by
  rcases hp with ⟨-, hfull⟩ | ⟨r', hr', hentry⟩
  · exact absurd hfull (Nat.ne_of_lt hroom)
  · obtain ⟨hlt, -⟩ := List.getElem?_eq_some_iff.mp hr'
    exact .inr ⟨r', by rw [getElem?_append_left hlt, hr'], hentry⟩

theorem Pending.modify {rs : List Record} {i j : ℕ} {h' : ℕ} (hp : Pending rs h i)
    (hj : ∃ r, rs[j]? = some r ∧ r.signal = h') (hne : h ≠ h') (f : Record → Record) :
    Pending (rs.modify j f) h i := by
  rcases hp with ⟨hi, hfull⟩ | ⟨r, hr, hentry, hsignal⟩
  · exact .inl ⟨hi, by rw [length_modify]; exact hfull⟩
  · have hij : j ≠ i := by
      rintro rfl
      obtain ⟨r', hr', hsignal'⟩ := hj
      rw [hr] at hr'
      cases hr'
      exact hne (hsignal.symm.trans hsignal')
    exact .inr ⟨r, by simp [hij, hr], hentry, hsignal⟩

theorem Sound.append (hs : R.Sound) (r : Record) (hr : r.event ≠ .shortRegion)
    (hroom : R.records.length < maxRecord) : Sound { R with records := R.records ++ [r] } where
  few := by rw [length_append]; exact hroom
  inRange := hs.inRange
  counted := by
    rw [filter_append, length_append, hs.counted]
    simp [hr]
  pending h info i hmap hi hg := (hs.pending h info i hmap hi hg).append hroom r
  short h info g hmap hg := by
    obtain ⟨hlt, i, hi, hi'⟩ := hs.short h info g hmap hg
    exact ⟨hlt, i, hi, by rw [length_append]; omega⟩

theorem Sound.setEnter (hs : R.Sound) (info : RegionEnter)
    (hpending : ∀ i, info.recordIdx = some i → info.regionIdx = none → Pending R.records h i)
    (hshort : ∀ g, info.regionIdx = some g →
      g < R.regions.length ∧ ∃ i, info.recordIdx = some i ∧ i < R.records.length) :
    (R.setEnter h info).Sound where
  few := hs.few
  inRange := hs.inRange
  counted := hs.counted
  pending k info' i hmap hi hg := by
    rw [lookup_setEnter] at hmap
    split_ifs at hmap with hk
    · cases hmap
      exact hk ▸ hpending i hi hg
    · exact hs.pending k info' i hmap hi hg
  short k info' g hmap hg := by
    rw [lookup_setEnter] at hmap
    split_ifs at hmap with hk
    · cases hmap
      exact hshort g hg
    · exact hs.short k info' g hmap hg

theorem Sound.appendEntry (hs : R.Sound) (hroom : R.records.length < maxRecord) (h : ℕ) (t t₀ : ℤ)
    (b : Bool) : (RecordLog.setEnter
      { R with records := R.records ++ [⟨t, R.process, .regionEntry, h⟩] } h
      ⟨some R.records.length, none, t₀, b⟩).Sound := by
  have hadded := hs.append ⟨t, R.process, .regionEntry, h⟩ nofun hroom
  refine hadded.setEnter _ (fun i hi _ => ?_) nofun
  cases hi
  exact .inr ⟨⟨t, R.process, .regionEntry, h⟩, by simp, rfl, rfl⟩

theorem filter_modify_length {α : Type} {p : α → Bool} {f : α → α} {xs : List α} {i : ℕ} {x : α}
    (hx : xs[i]? = some x) (hp : p x = false) (hf : p (f x) = true) :
    ((xs.modify i f).filter p).length = (xs.filter p).length + 1 := by
  induction xs generalizing i with
  | nil => cases hx
  | cons y ys ih =>
    cases i with
    | zero =>
      cases hx
      simp [hp, hf]
    | succ i =>
      have hys := ih hx
      rw [modify_succ_cons, filter_cons, filter_cons]
      split_ifs
      · rw [length_cons, length_cons, hys]
      · exact hys

theorem Sound.convert (hs : R.Sound) {i : ℕ} {info : RegionEnter} (region : ShortRegion)
    (hmap : R.enterMap h = some info) (hi : info.recordIdx = some i)
    (hg : info.regionIdx = none) (hlt : i < R.records.length) (t₀ : ℤ) :
    Sound { R.setEnter h ⟨some i, some R.regions.length, t₀, true⟩ with
      records := R.records.modify i (toShort R.regions.length)
      regions := R.regions ++ [region] } := by
  have hfew := hs.few
  have hentry : ∃ r, R.records[i]? = some r ∧ r.event = .regionEntry ∧ r.signal = h := by
    rcases hs.pending h info i hmap hi hg with ⟨rfl, hfull⟩ | hentry
    · omega
    · exact hentry
  obtain ⟨r, hr, hevent, hsignal⟩ := hentry
  refine ⟨?_, hs.inRange, ?_, fun k info' j hmap' hj hg' => ?_, fun k info' g hmap' hg' => ?_⟩
  · rw [length_modify]
    exact hfew
  · rw [length_append, length_singleton, ← hs.counted]
    exact filter_modify_length hr (by rw [hevent]; rfl) rfl
  · rw [lookup_setEnter] at hmap'
    split_ifs at hmap' with hk
    · cases hmap'
      cases hg'
    · exact (hs.pending k info' j hmap' hj hg').modify ⟨r, hr, hsignal⟩ hk _
  · rw [lookup_setEnter] at hmap'
    rw [length_append, length_modify, length_singleton]
    split_ifs at hmap' with hk
    · cases hmap'
      cases hg'
      exact ⟨Nat.lt_succ_self _, i, rfl, hlt⟩
    · obtain ⟨hlt', j, hj, hj'⟩ := hs.short k info' g hmap' hg'
      exact ⟨Nat.lt_succ_of_lt hlt', j, hj, hj'⟩

/-- A call that returns and leaves a region only by a record that has been written. -/
theorem Sound.logged (hs : R.Sound) (hstep : Logged R c R')
    (hkept : ∀ h t, c = .exit h t → R.HasRecord h) : R'.Sound := by
  have hfew := hs.few
  have hregions := hs.regions_le
  have hmax : decide (maxRegion ≤ R.regions.length) = false := by
    rw [decide_eq_false_iff_not, maxRegion]
    omega
  cases hstep with
  | @enterNew h t hmap hroom =>
    have hentry := hs.appendEntry hroom h t t false
    exact ⟨hentry.few, hentry.inRange, hentry.counted, hentry.pending, hentry.short⟩
  | @enterAgain h t info hmap =>
    have hentry := hs.setEnter (h := h) { info with enterTime := t }
      (fun i hi hg => hs.pending h info i hmap hi hg) (fun g hg => hs.short h info g hmap hg)
    exact ⟨hentry.few, hentry.inRange, hentry.counted, hentry.pending, hentry.short⟩
  | @exitPlain h t hmap hroom =>
    have hexit := hs.append ⟨t, R.process, .regionExit, h⟩ (by simp) hroom
    exact ⟨hexit.few, hexit.inRange, hexit.counted, hexit.pending, hexit.short⟩
  | @exitPending h i t t₀ b hmap =>
    have hlt := hkept h t rfl _ i hmap rfl
    have hexit := hs.convert (complete t₀ t ⟨h, 0, 0⟩) hmap rfl rfl hlt t₀
    refine ⟨hexit.few, ?_, hexit.counted, hexit.pending, hexit.short⟩
    rw [hs.inRange, hmax, decide_eq_false (by omega)]
    rfl
  | @exitKept h t t₀ b hmap hroom =>
    -- the entry is written first, and becomes the record of the short region
    have hentry := hs.appendEntry hroom h t t₀ true
    have hmap' : ∀ R' : RecordLog,
        (R'.setEnter h ⟨some R.records.length, none, t₀, true⟩).enterMap h =
          some ⟨some R.records.length, none, t₀, true⟩ := fun R' => by
      rw [lookup_setEnter, if_pos rfl]
    have hexit := hentry.convert (complete t₀ t ⟨h, 0, 0⟩) (hmap' _) rfl rfl (by simp) t₀
    have hadded := modify_append_cons R.records [] ⟨t, R.process, .regionEntry, h⟩
      (toShort R.regions.length)
    simp only [RecordLog.setEnter, Function.update_idem] at hexit
    rw [hadded] at hexit
    refine ⟨hexit.few, ?_, hexit.counted, hexit.pending, hexit.short⟩
    rw [hs.inRange, hmax]
    rfl
  | @exitShort h i g t t₀ b hmap =>
    have hshort := hs.short h _ g hmap rfl
    have hexit := hs.setEnter (h := h) ⟨some i, some g, t₀, true⟩ (by simp)
      (fun g' hg' => by cases hg'; exact hshort)
    refine ⟨hexit.few, ?_, ?_, hexit.pending, fun k info g' hmap' hg' => ?_⟩
    · rw [hs.inRange, decide_eq_false (by omega)]
      rfl
    · rw [length_modify]
      exact hexit.counted
    · rw [length_modify]
      exact hexit.short k info g' hmap' hg'
  | @note c record epochs hnote hroom =>
    have hevent : record.event ≠ .shortRegion := by
      cases c <;> cases hnote <;> simp
    have hexit := hs.append record hevent hroom
    exact ⟨hexit.few, hexit.inRange, hexit.counted, hexit.pending, hexit.short⟩

theorem Sound.refused (hs : R.Sound) (hfull : ¬ R.records.length < maxRecord)
    (hstep : Refused R c R') : R'.Sound := by
  have hlast : R.records.length = maxRecord := Nat.le_antisymm hs.few (Nat.not_lt.mp hfull)
  cases hstep with
  | @enter h t hmap =>
    exact hs.setEnter _ (fun i hi _ => .inl ⟨by cases hi; exact hlast, hlast⟩) nofun
  | exitPlain => exact hs
  | @exitKept h t info hmap hrecord =>
    refine hs.setEnter _ (fun i hi _ => .inl ⟨by cases hi; exact hlast, hlast⟩) fun g hg => ?_
    rw [show info.regionIdx = none from hs.indexed h info hmap hrecord] at hg
    cases hg
  | note => exact ⟨hs.few, hs.inRange, hs.counted, hs.pending, hs.short⟩

theorem Sound.out_of_range (hs : R.Sound) (hlost : ¬ R.HasRecord h)
    (hstep : Logged R (.exit h t) R' ∨ Refused R (.exit h t) R') : R'.outOfRange = true := by
  unfold HasRecord at hlost
  push Not at hlost
  obtain ⟨info, i, hmap, hi, hle⟩ := hlost
  have hg : info.regionIdx = none := by
    cases hreg : info.regionIdx with
    | none => rfl
    | some g =>
      obtain ⟨-, j, hj, hlt⟩ := hs.short h info g hmap hreg
      rw [hi] at hj
      cases hj
      omega
  rcases hstep with hlogged | hrefused
  · cases hlogged with
    | exitPlain hmap' => rw [hmap] at hmap'; cases hmap'
    | exitKept hmap' => rw [hmap] at hmap'; cases hmap'; cases hi
    | exitShort hmap' => rw [hmap] at hmap'; cases hmap'; cases hg
    | exitPending hmap' =>
      rw [hmap] at hmap'
      cases hmap'
      cases hi
      have hfull : R.records.length ≤ i := by omega
      simp [hfull]
    | note hnote => cases hnote
  · cases hrefused with
    | exitPlain hmap' => rw [hmap] at hmap'; cases hmap'
    | exitKept hmap' hrecord =>
      rw [hmap] at hmap'
      cases hmap'
      rw [hi] at hrecord
      cases hrecord
    | note hnote => cases hnote

end Sound

/-! ### Elements without a record -/

/-- The call finds the buffer full and leaves `h` an element whose record has not been written. -/
def Loses (R : RecordLog) (c : LogCall) (h : ℕ) : Prop :=
  ¬ R.records.length < maxRecord ∧
    match c with
    | .enter k _ => k = h ∧ R.enterMap k = none
    | .exit k _ => k = h ∧ ∃ info, R.enterMap k = some info ∧ info.recordIdx = none
    | _ => False

section Lost

/-- The element of the region points behind a full buffer. -/
def Unwritten (R : RecordLog) (h : ℕ) : Prop :=
  ∃ info, R.enterMap h = some info ∧ info.recordIdx = some maxRecord

theorem unwritten_setEnter {k : ℕ} {info : RegionEnter} :
    (R.setEnter k info).Unwritten h ↔
      if h = k then info.recordIdx = some maxRecord else R.Unwritten h := by
  unfold Unwritten
  simp only [lookup_setEnter]
  split_ifs with hk
  · simp only [Option.some.injEq, exists_eq_left']
  · rfl

theorem Sound.unwritten_iff (hs : R.Sound) : R.Unwritten h ↔ ¬ R.HasRecord h := by
  unfold Unwritten HasRecord
  push Not
  have hfew := hs.few
  refine ⟨fun ⟨info, hmap, hi⟩ => ⟨info, maxRecord, hmap, hi, by omega⟩, ?_⟩
  rintro ⟨info, i, hmap, hi, hle⟩
  refine ⟨info, hmap, ?_⟩
  cases hg : info.regionIdx with
  | some g =>
    obtain ⟨-, j, hj, hlt⟩ := hs.short h info g hmap hg
    rw [hi] at hj
    cases hj
    omega
  | none =>
    rcases hs.pending h info i hmap hi hg with ⟨rfl, -⟩ | ⟨r, hr, -⟩
    · exact hi
    · obtain ⟨hlt, -⟩ := List.getElem?_eq_some_iff.mp hr
      omega

/-- A region loses its record in a full buffer. -/
theorem Sound.length_of_unwritten (hs : R.Sound) (hlost : R.Unwritten h) :
    R.records.length = maxRecord := by
  obtain ⟨info, hmap, hi⟩ := hlost
  have hfew := hs.few
  cases hg : info.regionIdx with
  | some g =>
    obtain ⟨-, j, hj, hlt⟩ := hs.short h info g hmap hg
    rw [hi] at hj
    cases hj
    omega
  | none =>
    rcases hs.pending h info maxRecord hmap hi hg with ⟨-, hfull⟩ | ⟨r, hr, -⟩
    · exact hfull
    · obtain ⟨hlt, -⟩ := List.getElem?_eq_some_iff.mp hr
      omega

theorem not_unwritten_of_nil (hnil : R.records = []) : ¬ R.reset.Unwritten h := by
  rintro ⟨info, hmap, hi⟩
  rw [(enterMap_of_nil hnil hmap).1] at hi
  cases hi

theorem Sound.unwritten_reset (hs : R.Sound) : R.reset.Unwritten h ↔ R.Unwritten h := by
  by_cases hnil : R.records = []
  · refine iff_of_false (not_unwritten_of_nil hnil) fun hlost => ?_
    have hfull := hs.length_of_unwritten hlost
    rw [hnil] at hfull
    cases hfull
  · rw [reset_of_ne_nil hnil]

theorem unwritten_congr (hmap : R'.enterMap = R.enterMap) : R'.Unwritten h ↔ R.Unwritten h := by
  unfold Unwritten
  rw [hmap]

theorem unwritten_of_lookup {k : ℕ} {info : RegionEnter} (hmap : R.enterMap k = some info) :
    R.Unwritten k ↔ info.recordIdx = some maxRecord := by
  unfold Unwritten
  rw [hmap]
  simp only [Option.some.injEq, exists_eq_left']

theorem unwritten_assign {k : ℕ} (info : RegionEnter)
    (hk : info.recordIdx = some maxRecord ↔ R.Unwritten k) :
    (R.setEnter k info).Unwritten h ↔ R.Unwritten h := by
  rw [unwritten_setEnter]
  split_ifs with heq
  · rw [hk, heq]
  · rfl

theorem unwritten_of_logged (hstep : Logged R c R') : R'.Unwritten h ↔ R.Unwritten h := by
  have hne : R.records.length < maxRecord → ¬ some R.records.length = some maxRecord :=
    fun hroom heq => absurd (Option.some.inj heq) (Nat.ne_of_lt hroom)
  cases hstep with
  | @enterNew k t hmap hroom =>
    refine Iff.trans (unwritten_congr (by rfl)) (unwritten_assign (k := k)
      ⟨some R.records.length, none, t, false⟩ (iff_of_false (hne hroom) ?_))
    rintro ⟨info, hmap', -⟩
    rw [hmap] at hmap'
    cases hmap'
  | @enterAgain k t info hmap =>
    exact Iff.trans (unwritten_congr (by rfl)) (unwritten_assign (k := k)
      { info with enterTime := t } (unwritten_of_lookup hmap).symm)
  | exitPlain => exact unwritten_congr (by rfl)
  | @exitPending k i t t₀ b hmap =>
    exact Iff.trans (unwritten_congr (by rfl)) (unwritten_assign (k := k)
      ⟨some i, some R.regions.length, t₀, true⟩ (unwritten_of_lookup hmap).symm)
  | @exitKept k t t₀ b hmap hroom =>
    refine Iff.trans (unwritten_congr (by rfl)) (unwritten_assign (k := k)
      ⟨some R.records.length, some R.regions.length, t₀, true⟩ (iff_of_false (hne hroom) ?_))
    rw [unwritten_of_lookup hmap]
    exact nofun
  | @exitShort k i g t t₀ b hmap =>
    exact Iff.trans (unwritten_congr (by rfl)) (unwritten_assign (k := k)
      ⟨some i, some g, t₀, true⟩ (unwritten_of_lookup hmap).symm)
  | note => exact unwritten_congr (by rfl)

theorem Sound.unwritten_of_refused (hs : R.Sound) (hfull : ¬ R.records.length < maxRecord)
    (hstep : Refused R c R') : R'.Unwritten h ↔ R.Unwritten h ∨ Loses R c h := by
  have hlast : R.records.length = maxRecord := Nat.le_antisymm hs.few (Nat.not_lt.mp hfull)
  have hassigned : ∀ {k : ℕ} {info : RegionEnter}, info.recordIdx = some R.records.length →
      (Loses R c h ↔ k = h) → ((R.setEnter k info).Unwritten h ↔ R.Unwritten h ∨ Loses R c h) := by
    intro k info hi hk
    rw [unwritten_setEnter, hk]
    split_ifs with heq
    · rw [hi, hlast, heq]
      exact iff_of_true rfl (.inr rfl)
    · exact ⟨.inl, fun hor => hor.resolve_right (Ne.symm heq)⟩
  cases hstep with
  | enter hmap => exact hassigned rfl ⟨fun hl => hl.2.1, fun hk => ⟨hfull, hk, hmap⟩⟩
  | @exitPlain k t hmap =>
    refine ⟨.inl, fun hor => hor.resolve_right ?_⟩
    rintro ⟨-, -, info, hmap', -⟩
    rw [hmap] at hmap'
    cases hmap'
  | exitKept hmap hi => exact hassigned rfl ⟨fun hl => hl.2.1, fun hk => ⟨hfull, hk, _, hmap, hi⟩⟩
  | @note c record epochs hnote =>
    refine ⟨.inl, fun hor => hor.resolve_right ?_⟩
    rintro ⟨-, hlost⟩
    cases c <;> first | exact hlost | cases hnote

theorem not_loses_of_logged (hstep : Logged R c R') : ¬ Loses R c h := by
  rintro ⟨hfull, hlost⟩
  cases hstep with
  | enterNew _ hroom => exact hfull hroom
  | enterAgain hmap =>
    have hnone := hlost.2
    rw [hmap] at hnone
    cases hnone
  | exitPlain _ hroom => exact hfull hroom
  | exitPending hmap =>
    obtain ⟨-, info, hmap', hi⟩ := hlost
    rw [hmap] at hmap'
    cases hmap'
    cases hi
  | exitKept _ hroom => exact hfull hroom
  | exitShort hmap =>
    obtain ⟨-, info, hmap', hi⟩ := hlost
    rw [hmap] at hmap'
    cases hmap'
    cases hi
  | note _ hroom => exact hfull hroom

end Lost

/-! ### Steps from any state -/

section Indexed

theorem Indexed.congr (hR : R.Indexed) (hmap : R'.enterMap = R.enterMap) : R'.Indexed := by
  unfold Indexed
  rw [hmap]
  exact hR

theorem Indexed.setEnter (hR : R.Indexed) (info : RegionEnter)
    (hinfo : info.recordIdx = none → info.regionIdx = none) : (R.setEnter h info).Indexed := by
  intro k info' hmap hi
  rw [lookup_setEnter] at hmap
  split_ifs at hmap
  · cases hmap
    exact hinfo hi
  · exact hR k info' hmap hi

theorem Indexed.logged (hR : R.Indexed) (hstep : Logged R c R') : R'.Indexed := by
  cases hstep with
  | @enterNew h t =>
    exact (hR.setEnter (h := h) ⟨some R.records.length, none, t, false⟩ nofun).congr (by rfl)
  | @enterAgain h t info hmap =>
    exact (hR.setEnter (h := h) { info with enterTime := t } (hR h info hmap)).congr (by rfl)
  | exitPlain => exact hR
  | @exitPending h i t t₀ =>
    exact (hR.setEnter (h := h) ⟨some i, some R.regions.length, t₀, true⟩ nofun).congr (by rfl)
  | @exitKept h t t₀ =>
    exact (hR.setEnter (h := h) ⟨some R.records.length, some R.regions.length, t₀, true⟩
      nofun).congr (by rfl)
  | @exitShort h i g t t₀ =>
    exact (hR.setEnter (h := h) ⟨some i, some g, t₀, true⟩ nofun).congr (by rfl)
  | note => exact hR

theorem Indexed.refused (hR : R.Indexed) (hstep : Refused R c R') : R'.Indexed := by
  cases hstep with
  | enter => exact hR.setEnter _ nofun
  | exitPlain => exact hR
  | exitKept => exact hR.setEnter _ fun hi => by cases hi
  | note => exact hR

theorem Indexed.reset (hR : R.Indexed) : R.reset.Indexed := by
  by_cases hnil : R.records = []
  · exact fun h info hmap _ => (enterMap_of_nil hnil hmap).2
  · rw [reset_of_ne_nil hnil]
    exact hR

theorem outOfRange_step (hstep : Logged R c R' ∨ Refused R c R') (hR : R.outOfRange = true) :
    R'.outOfRange = true := by
  rcases hstep with hlogged | hrefused
  · cases hlogged <;> simp [hR]
  · cases hrefused <;> exact hR

end Indexed

end RecordLog

/-! ### Runs -/

namespace LogSystem

open RecordLog

variable {p : ℤ} {s : LogSystem} {a : LogAction} {as : List LogAction}

/-- Every index was below the number of records or regions, and these are not above the sizes of
the arrays. -/
structure InRange (s : LogSystem) : Prop where
  index : s.log.outOfRange = false
  records : s.log.records.length ≤ maxRecord
  regions : s.log.regions.length ≤ maxRegion

/-- The log after some actions. -/
abbrev runOf (p : ℤ) (as : List LogAction) : LogSystem := as.foldl next (init p)

theorem runOf_concat : runOf p (as ++ [a]) = (runOf p as).next a := by
  rw [runOf, List.foldl_append]
  rfl

/-- A refused call has left the region an element without a record, and the log has not been dumped
since. -/
def Lost (p : ℤ) (as : List LogAction) (h : ℕ) : Prop :=
  ∃ pre c mid, as = pre ++ .call c :: mid ∧ Loses (runOf p pre).log.reset c h ∧
    LogAction.dump ∉ mid

/-- A region is left whose record is lost. -/
def LeavesLost (p : ℤ) (as : List LogAction) : Prop :=
  ∃ pre h t post, as = pre ++ .call (.exit h t) :: post ∧ Lost p pre h

/-- The region that is left has a record, if it has an element. -/
def RecordKept (s : LogSystem) : LogAction → Prop
  | .call (.exit h _) => s.log.reset.HasRecord h
  | _ => True

/-- A call returns or is refused. -/
theorem afterCall_cases (hs : s.log.reset.Indexed) (c : LogCall) :
    Logged s.log.reset c (s.afterCall c).log ∨
      ¬ s.log.reset.records.length < maxRecord ∧ Refused s.log.reset c (s.afterCall c).log := by
  have hspec := run_spec s.log hs c
  unfold afterCall
  unfold Outcome wp at hspec
  split at hspec
  · next a l' hrun =>
    rw [hrun]
    exact .inl hspec
  · next e l' hrun =>
    rw [hrun]
    exact .inr hspec

theorem indexed_next (hs : s.log.reset.Indexed) (a : LogAction) : (s.next a).log.reset.Indexed := by
  cases a with
  | dump => exact fun h info hmap _ => (enterMap_of_nil (by rfl) hmap).2
  | call c =>
    rcases afterCall_cases hs c with hlogged | ⟨-, hrefused⟩
    · exact (hs.logged hlogged).reset
    · exact (hs.refused hrefused).reset

theorem outOfRange_next (hs : s.log.reset.Indexed) (hout : s.log.outOfRange = true)
    (a : LogAction) : (s.next a).log.outOfRange = true := by
  cases a with
  | dump => exact hout
  | call c =>
    rw [← reset_outOfRange] at hout
    exact outOfRange_step ((afterCall_cases hs c).imp_right And.right) hout

theorem sound_next (hs : s.log.reset.Sound) (hkept : s.RecordKept a) :
    (s.next a).log.reset.Sound := by
  cases a with
  | dump => exact sound_reset_of_nil (by rfl) (by rfl) (reset_outOfRange s.log ▸ hs.inRange)
  | call c =>
    rcases afterCall_cases hs.indexed c with hlogged | ⟨hfull, hrefused⟩
    · exact (hs.logged hlogged (by rintro h t rfl; exact hkept)).reset
    · exact (hs.refused hfull hrefused).reset

theorem outOfRange_of_lost (hs : s.log.reset.Sound) (hlost : ¬ s.RecordKept a) :
    (s.next a).log.outOfRange = true := by
  rcases a with c | _
  · cases c with
    | exit h t =>
      exact hs.out_of_range hlost ((afterCall_cases hs.indexed (.exit h t)).imp_right And.right)
    | _ => exact absurd trivial hlost
  · exact absurd trivial hlost

theorem sound_init (p : ℤ) : (init p).log.reset.Sound := sound_reset_of_nil rfl rfl rfl

theorem inRange_iff_along :
    (runOf p as).InRange ↔ Lts.Along RecordKept next (init p) as := by
  have htrap : Lts.Along RecordKept next (init p) as ↔ ¬ ((runOf p as).log.outOfRange = true ∧
      (runOf p as).log.reset.Indexed) := Lts.along_iff_of_trap
    (I := fun s : LogSystem => s.log.reset.Sound)
    (B := fun s : LogSystem => s.log.outOfRange = true ∧ s.log.reset.Indexed)
    (fun s a hs hkept => sound_next hs hkept)
    (fun s a hs hlost => ⟨outOfRange_of_lost hs hlost, indexed_next hs.indexed a⟩)
    (fun s a ⟨hout, hs⟩ => ⟨outOfRange_next hs hout a, indexed_next hs a⟩)
    (fun s hs ⟨hout, _⟩ => by
      rw [← reset_outOfRange, hs.inRange] at hout
      cases hout)
    (sound_init p)
  refine ⟨fun hrange => htrap.mpr fun ⟨hout, _⟩ => ?_, fun halong => ?_⟩
  · rw [hrange.index] at hout
    cases hout
  · have hs : (runOf p as).log.reset.Sound := (Lts.reachableIf_of_along halong).invariant
      (I := fun s : LogSystem => s.log.reset.Sound) (sound_init p)
      (by rintro s a _ hs hkept rfl; exact sound_next hs hkept)
    have hfew := hs.few
    have hregions := hs.regions_le
    have hindex := hs.inRange
    rw [reset_records] at hfew hregions
    rw [reset_regions] at hregions
    rw [reset_outOfRange] at hindex
    exact ⟨hindex, hfew, by rw [maxRegion]; omega⟩

theorem lost_concat : Lost p (as ++ [a]) h ↔
    a ≠ .dump ∧ (Lost p as h ∨ ∃ c, a = .call c ∧ Loses (runOf p as).log.reset c h) := by
  constructor
  · rintro ⟨pre, c, mid, heq, hlost, hmid⟩
    rcases mid.eq_nil_or_concat' with rfl | ⟨mid', b, rfl⟩
    · obtain ⟨rfl, hb⟩ := append_inj' heq rfl
      cases hb
      exact ⟨nofun, .inr ⟨c, rfl, hlost⟩⟩
    · rw [← cons_append, ← append_assoc] at heq
      obtain ⟨rfl, hb⟩ := append_inj' heq rfl
      cases hb
      rw [mem_append, mem_singleton, not_or] at hmid
      exact ⟨Ne.symm hmid.2, .inl ⟨pre, c, mid', rfl, hlost, hmid.1⟩⟩
  · rintro ⟨hdump, ⟨pre, c, mid, rfl, hlost, hmid⟩ | ⟨c, rfl, hlost⟩⟩
    · refine ⟨pre, c, mid ++ [a], by rw [append_assoc, cons_append], hlost, ?_⟩
      rw [mem_append, mem_singleton, not_or]
      exact ⟨hmid, Ne.symm hdump⟩
    · exact ⟨as, c, [], rfl, hlost, not_mem_nil⟩

/-- The elements without a record are those that a refused call has left since the last dump. -/
theorem unwritten_iff_lost (halong : Lts.Along RecordKept next (init p) as) :
    (runOf p as).log.reset.Sound ∧
      ∀ h, (runOf p as).log.reset.Unwritten h ↔ Lost p as h := by
  induction as using List.reverseRecOn with
  | nil =>
    refine ⟨sound_init p, fun h => iff_of_false (not_unwritten_of_nil (by rfl)) ?_⟩
    rintro ⟨pre, c, mid, heq, -⟩
    simp at heq
  | append_singleton as a ih =>
    rw [Lts.along_concat] at halong
    obtain ⟨hrun, hkept⟩ := halong
    obtain ⟨hs, hlost⟩ := ih hrun
    have hnext := sound_next hs hkept
    rw [runOf_concat]
    refine ⟨hnext, fun h => ?_⟩
    rw [lost_concat, ← hlost]
    cases a with
    | dump => exact iff_of_false (not_unwritten_of_nil (by rfl)) fun hl => hl.1 rfl
    | call c =>
      have hcall : ∀ l', Loses (runOf p as).log.reset l' h ↔ ∃ c', LogAction.call l' = .call c' ∧
          Loses (runOf p as).log.reset c' h := fun l' =>
        ⟨fun hl => ⟨l', rfl, hl⟩, fun ⟨c', heq, hl⟩ => by cases heq; exact hl⟩
      rw [← hcall, ne_eq, and_iff_right (by exact nofun)]
      rcases afterCall_cases hs.indexed c with hlogged | ⟨hfull, hrefused⟩
      · have hl' := hs.logged hlogged (by rintro h t rfl; exact hkept)
        change RecordLog.Unwritten ((runOf p as).afterCall c).log.reset h ↔ _
        rw [hl'.unwritten_reset, unwritten_of_logged hlogged,
          or_iff_left (not_loses_of_logged hlogged)]
      · have hl' := hs.refused hfull hrefused
        change RecordLog.Unwritten ((runOf p as).afterCall c).log.reset h ↔ _
        rw [hl'.unwritten_reset, hs.unwritten_of_refused hfull hrefused]

theorem leavesLost_concat : LeavesLost p (as ++ [a]) ↔
    LeavesLost p as ∨ ∃ h t, a = .call (.exit h t) ∧ Lost p as h := by
  constructor
  · rintro ⟨pre, h, t, post, heq, hlost⟩
    rcases post.eq_nil_or_concat' with rfl | ⟨post', b, rfl⟩
    · obtain ⟨rfl, hb⟩ := append_inj' heq rfl
      cases hb
      exact .inr ⟨h, t, rfl, hlost⟩
    · rw [← cons_append, ← append_assoc] at heq
      obtain ⟨rfl, hb⟩ := append_inj' heq rfl
      exact .inl ⟨pre, h, t, post', rfl, hlost⟩
  · rintro (⟨pre, h, t, post, rfl, hlost⟩ | ⟨h, t, rfl, hlost⟩)
    · exact ⟨pre, h, t, post ++ [a], by rw [append_assoc, cons_append], hlost⟩
    · exact ⟨as, h, t, [], rfl, hlost⟩

theorem recordKept_iff (halong : Lts.Along RecordKept next (init p) as) :
    (runOf p as).RecordKept a ↔ ¬ ∃ h t, a = .call (.exit h t) ∧ Lost p as h := by
  obtain ⟨hs, hlost⟩ := unwritten_iff_lost halong
  rcases a with c | _
  · cases c with
    | exit h t =>
      change RecordLog.HasRecord _ h ↔ _
      rw [← not_iff_not, ← hs.unwritten_iff, hlost, not_not]
      exact ⟨fun hl => ⟨h, t, rfl, hl⟩, fun ⟨h', t', heq, hl⟩ => by cases heq; exact hl⟩
    | _ => exact iff_of_true trivial fun ⟨h, t, heq, _⟩ => by cases heq
  · exact iff_of_true trivial fun ⟨h, t, heq, _⟩ => by cases heq

/-- The indices are in range exactly in the runs in which no region is left for which a call has
been refused since the last dump. -/
theorem inRange_iff (p : ℤ) (as : List LogAction) :
    (runOf p as).InRange ↔ ¬ LeavesLost p as := by
  rw [inRange_iff_along]
  induction as using List.reverseRecOn with
  | nil =>
    refine iff_of_true trivial ?_
    rintro ⟨pre, h, t, post, heq, -⟩
    simp at heq
  | append_singleton as a ih =>
    rw [Lts.along_concat, leavesLost_concat, not_or, ← ih]
    exact and_congr_right fun halong => recordKept_iff halong

/-- The application writes records until the buffer is full. -/
def fill (n : ℕ) : List LogAction := List.replicate n (.call (.affinity 0 0))

/-- The log with `n` such records. -/
def filled (p : ℤ) (n : ℕ) : RecordLog :=
  { process := p, records := List.replicate n ⟨0, p, .affinity, 0⟩ }

theorem reset_filled (p : ℤ) (n : ℕ) : (filled p n).reset = filled p n := by
  rw [reset]
  split_ifs <;> rfl

theorem fill_eq (p : ℤ) {n : ℕ} (hn : n ≤ maxRecord) : (runOf p (fill n)).log = filled p n := by
  induction n with
  | zero => rfl
  | succ n ih =>
    have hlog := ih (by omega)
    have hspec : wp (LogCall.affinity 0 0).run (fun _ l' => l' = filled p (n + 1))
        (fun _ _ => False) (filled p n) := by
      change wp (appendEvent .affinity 0 0) _ _ _
      unfold appendEvent
      simp only [wp_bind, wp_modify, wp_get, wp_appendRecord, reset_filled]
      refine ⟨fun _ => by rw [filled, filled, replicate_succ'], fun hfull => hfull ?_⟩
      rw [filled, length_replicate]
      omega
    rw [fill, replicate_succ', runOf_concat]
    change ((runOf p (fill n)).afterCall (.affinity 0 0)).log = _
    unfold afterCall
    rw [hlog]
    unfold wp at hspec
    split at hspec
    · next hrun => rw [hrun]; exact hspec
    · exact hspec.elim

/-- A region is entered and left when the buffer is full. -/
theorem not_inRange_full_buffer : ¬ ∀ p as, (runOf p as).InRange := by
  intro hall
  have hrange := hall 7 (fill maxRecord ++ [.call (.enter 5 0)] ++ [.call (.exit 5 1)])
  have hlog := fill_eq 7 (n := maxRecord) (Nat.le_refl _)
  have hfull : ¬ (runOf 7 (fill maxRecord)).log.reset.records.length < maxRecord := by
    rw [hlog, reset_filled, filled, length_replicate]
    exact Nat.lt_irrefl _
  have hnone : (runOf 7 (fill maxRecord)).log.reset.enterMap 5 = none := by
    rw [hlog, reset_filled]
    rfl
  have halong : Lts.Along RecordKept next (init 7) (fill maxRecord ++ [.call (.enter 5 0)]) := by
    rw [Lts.along_concat]
    refine ⟨Lts.along_of_forall fun s a ha => ?_, trivial⟩
    rw [(mem_replicate.mp ha).2]
    trivial
  have hlost : Lost 7 (fill maxRecord ++ [.call (.enter 5 0)]) 5 :=
    ⟨_, _, _, rfl, ⟨hfull, rfl, hnone⟩, not_mem_nil⟩
  obtain ⟨hs, hiff⟩ := unwritten_iff_lost halong
  have hout := outOfRange_of_lost (a := .call (.exit 5 1)) hs
    (hs.unwritten_iff.mp ((hiff 5).mpr hlost))
  rw [runOf_concat] at hrange
  rw [hrange.index] at hout
  cases hout

end LogSystem

end Geopm
