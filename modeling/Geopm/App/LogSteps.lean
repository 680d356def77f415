import Geopm.App.RecordLog

/-!
# What a call does to a record log

* `RecordLog.Logged R c l'` : the call `c` has returned, and has led from `R`, where
  `check_reset` has been performed, to `l'`;
* `RecordLog.Refused R c l'` : the call has raised an exception because the buffer is full;
* `run_spec` : every call does one or the other;
* `Mapped` : the map of the application process describes the buffer, and
  `tracked_of_reachable` : it does so in every run in which no call is refused.
-/

namespace Geopm

open Prog
open List
open Option

namespace RecordLog

/-- The record that a call other than `enter` and `exit` appends, and the epoch count then. -/
def noteOf (R : RecordLog) : LogCall → Option (Record × ℕ)
  | .enter _ _ | .exit _ _ => none
  | .epoch t => some (⟨t, R.process, .epochCount, R.epochCount + 1⟩, R.epochCount + 1)
  | .affinity t cpu => some (⟨t, R.process, .affinity, cpu⟩, R.epochCount)
  | .startProfile t hash => some (⟨t, R.process, .startProfile, hash⟩, R.epochCount)
  | .stopProfile t hash => some (⟨t, R.process, .stopProfile, hash⟩, R.epochCount)
  | .overhead t field => some (⟨t, R.process, .overhead, field⟩, R.epochCount)

/-- Such a call does not enter or leave a region. -/
theorem noteOf_isBoundary {R : RecordLog} {c : LogCall} {record : Record} {epochs : ℕ}
    (h : R.noteOf c = some (record, epochs)) : record.isBoundary = false := by
  cases c <;> cases h <;> rfl

/-- What a call that returns does. -/
inductive Logged (R : RecordLog) : LogCall → RecordLog → Prop where
  /-- The first entry since the last dump. -/
  | enterNew {h : ℕ} {t : ℤ} (hmap : R.enterMap h = none)
      (hroom : R.records.length < maxRecord) :
      Logged R (.enter h t)
        { R.setEnter h ⟨some R.records.length, none, t, false⟩ with
          records := R.records ++ [⟨t, R.process, .regionEntry, h⟩]
          enteredHash := h }
  /-- An entry into a region that has been left since the last dump. -/
  | enterAgain {h : ℕ} {t : ℤ} {info : RegionEnter} (hmap : R.enterMap h = some info) :
      Logged R (.enter h t)
        { R.setEnter h { info with enterTime := t } with enteredHash := h }
  /-- The exit from a region whose entry has been dumped. -/
  | exitPlain {h : ℕ} {t : ℤ} (hmap : R.enterMap h = none)
      (hroom : R.records.length < maxRecord) :
      Logged R (.exit h t)
        { R with
          records := R.records ++ [⟨t, R.process, .regionExit, h⟩]
          enteredHash := regionHashInvalid }
  /-- The first exit of a region that has been entered since the last dump. -/
  | exitPending {h i : ℕ} {t t₀ : ℤ} {b : Bool}
      (hmap : R.enterMap h = some ⟨some i, none, t₀, b⟩) :
      Logged R (.exit h t)
        { R.setEnter h ⟨some i, some R.regions.length, t₀, true⟩ with
          records := R.records.modify i (toShort R.regions.length)
          regions := R.regions ++ [complete t₀ t ⟨h, 0, 0⟩]
          enteredHash := regionHashInvalid
          outOfRange := R.outOfRange || decide (R.records.length ≤ i) ||
            decide (maxRegion ≤ R.regions.length) }
  /-- The exit from a short region that was entered before the last dump. -/
  | exitKept {h : ℕ} {t t₀ : ℤ} {b : Bool} (hmap : R.enterMap h = some ⟨none, none, t₀, b⟩)
      (hroom : R.records.length < maxRecord) :
      Logged R (.exit h t)
        { R.setEnter h ⟨some R.records.length, some R.regions.length, t₀, true⟩ with
          records := R.records ++ [toShort R.regions.length ⟨t, R.process, .regionEntry, h⟩]
          regions := R.regions ++ [complete t₀ t ⟨h, 0, 0⟩]
          enteredHash := regionHashInvalid
          outOfRange := R.outOfRange || decide (maxRegion ≤ R.regions.length) }
  /-- One more exit from a short region. -/
  | exitShort {h i g : ℕ} {t t₀ : ℤ} {b : Bool}
      (hmap : R.enterMap h = some ⟨some i, some g, t₀, b⟩) :
      Logged R (.exit h t)
        { R.setEnter h ⟨some i, some g, t₀, true⟩ with
          regions := R.regions.modify g (complete t₀ t)
          enteredHash := regionHashInvalid
          outOfRange := R.outOfRange || decide (R.regions.length ≤ g) }
  /-- A record that is neither an entry nor an exit. -/
  | note {c : LogCall} {record : Record} {epochs : ℕ} (hnote : R.noteOf c = some (record, epochs))
      (hroom : R.records.length < maxRecord) :
      Logged R c { R with records := R.records ++ [record], epochCount := epochs }

/-- What a call that finds the buffer full leaves behind. -/
inductive Refused (R : RecordLog) : LogCall → RecordLog → Prop where
  | enter {h : ℕ} {t : ℤ} (hmap : R.enterMap h = none) :
      Refused R (.enter h t) (R.setEnter h ⟨some R.records.length, none, t, false⟩)
  | exitPlain {h : ℕ} {t : ℤ} (hmap : R.enterMap h = none) : Refused R (.exit h t) R
  | exitKept {h : ℕ} {t : ℤ} {info : RegionEnter} (hmap : R.enterMap h = some info)
      (hrecord : info.recordIdx = none) :
      Refused R (.exit h t)
        (R.setEnter h { info with recordIdx := some R.records.length, isShort := true })
  | note {c : LogCall} {record : Record} {epochs : ℕ}
      (hnote : R.noteOf c = some (record, epochs)) :
      Refused R c { R with epochCount := epochs }

section SetEnter

variable (l : RecordLog) (h : ℕ) (info info' : RegionEnter)

@[simp] theorem setEnter_process : (l.setEnter h info).process = l.process := rfl
@[simp] theorem setEnter_records : (l.setEnter h info).records = l.records := rfl
@[simp] theorem setEnter_regions : (l.setEnter h info).regions = l.regions := rfl
@[simp] theorem setEnter_epochCount : (l.setEnter h info).epochCount = l.epochCount := rfl
@[simp] theorem setEnter_outOfRange : (l.setEnter h info).outOfRange = l.outOfRange := rfl

theorem setEnter_enterMap :
    (l.setEnter h info).enterMap = Function.update l.enterMap h (some info) := rfl

end SetEnter

/-- Modify the element after `pre`. -/
theorem modify_append_cons {α : Type} (pre post : List α) (x : α) (f : α → α) :
    (pre ++ x :: post).modify pre.length f = pre ++ f x :: post := by
  induction pre with
  | nil => rfl
  | cons y pre ih =>
    rw [cons_append, length_cons, modify_succ_cons, ih, cons_append]

theorem append_modify {α : Type} (ds rs : List α) (i : ℕ) (f : α → α) :
    ds ++ rs.modify i f = (ds ++ rs).modify (ds.length + i) f := by
  induction ds with
  | nil => rw [nil_append, nil_append, length_nil, Nat.zero_add]
  | cons d ds ih =>
    rw [cons_append, ih, cons_append, length_cons, Nat.add_right_comm,
      modify_succ_cons]

/-- A region in the short regions array has a record. -/
def Indexed (R : RecordLog) : Prop :=
  ∀ h info, R.enterMap h = some info → info.recordIdx = none → info.regionIdx = none

section Rules

variable {l : RecordLog} {Q : Unit → RecordLog → Prop} {E : Exception → RecordLog → Prop}

theorem wp_appendRecord {record : Record} : wp (appendRecord record) Q E l ↔
    (l.records.length < maxRecord → Q ⟨⟩ { l with records := l.records ++ [record] }) ∧
    (¬ l.records.length < maxRecord →
      E ⟨"ApplicationRecordLog: maximum number of records reached.", [], .runtime⟩ l) := by
  unfold appendRecord
  simp only [wp_bind, wp_get, wp_ite, wp_set, wp_throw]

/-- The outcome of a call. -/
abbrev Outcome (l : RecordLog) (c : LogCall) : Prop :=
  wp c.run (fun _ l' => Logged l.reset c l')
    (fun _ l' => ¬ l.reset.records.length < maxRecord ∧ Refused l.reset c l') l

variable (l : RecordLog)

theorem enter_spec (h : ℕ) (t : ℤ) : Outcome l (.enter h t) := by
  change wp (enter h t) _ _ l
  unfold enter
  simp only [wp_bind, wp_modify, wp_get]
  cases hmap : l.reset.enterMap h with
  | none =>
    simp only [wp_bind, wp_set, wp_appendRecord]
    exact ⟨fun hroom => .enterNew hmap hroom, fun hfull => ⟨hfull, .enter hmap⟩⟩
  | some info => exact .enterAgain hmap

theorem exit_spec (hl : l.reset.Indexed) (h : ℕ) (t : ℤ) :
    Outcome l (.exit h t) := by
  change wp (exit h t) _ _ l
  unfold exit
  simp only [wp_bind, wp_modify, wp_get]
  cases hmap : l.reset.enterMap h with
  | none =>
    simp only [wp_bind, wp_modify, wp_appendRecord]
    exact ⟨fun hroom => .exitPlain hmap hroom, fun hfull => ⟨hfull, .exitPlain hmap⟩⟩
  | some info =>
    obtain ⟨recordIdx, regionIdx, t₀, b⟩ := info
    have hlast : ∀ n : ℕ, decide (n + (0 + 1) ≤ n) = false := fun n => by simp
    have hregions := modify_append_cons l.reset.regions [] ⟨h, 0, 0⟩ (complete t₀ t)
    have hadded := modify_append_cons l.reset.records [] ⟨t, l.reset.process, .regionEntry, h⟩
      (toShort l.reset.regions.length)
    simp only [wp_bind]
    rcases recordIdx with _ | i
    · obtain rfl : regionIdx = none := hl h _ hmap rfl
      simp only [exitRecord, exitRegion, wp_bind, wp_get, wp_set, wp_pure, wp_modify,
        wp_appendRecord]
      refine ⟨fun hroom => ?_, fun hfull => ⟨hfull, .exitKept hmap rfl⟩⟩
      have key := Logged.exitKept (t := t) hmap hroom
      simp only [setEnter, Function.update_idem, hregions, hadded, hlast, getD_some,
        Bool.or_false, length_append, length_cons, length_nil] at key ⊢
      exact key
    · rcases regionIdx with _ | g
      · simp only [exitRecord, exitRegion, wp_bind, wp_get, wp_set, wp_pure, wp_modify]
        have key := Logged.exitPending (t := t) hmap
        simp only [setEnter, Function.update_idem, hregions, hlast, getD_some,
          Bool.or_false, length_append, length_cons, length_nil] at key ⊢
        exact key
      · simp only [exitRecord, exitRegion, wp_bind, wp_modify, wp_pure]
        exact .exitShort hmap

/-- A call does what `Logged` or `Refused` says. -/
theorem run_spec (hl : l.reset.Indexed) (c : LogCall) : Outcome l c := by
  have happend : ∀ {e : Event} {t : ℤ} {n : ℕ} {c : LogCall},
      l.reset.noteOf c = some (⟨t, l.reset.process, e, n⟩, l.reset.epochCount) →
      wp (appendEvent e t n) (fun _ l' => Logged l.reset c l')
        (fun _ l' => ¬ l.reset.records.length < maxRecord ∧ Refused l.reset c l') l := by
    intro e t n c hc
    unfold appendEvent
    simp only [wp_bind, wp_modify, wp_get, wp_appendRecord]
    exact ⟨fun hroom => .note hc hroom, fun hfull => ⟨hfull, .note hc⟩⟩
  cases c with
  | enter h t => exact enter_spec l h t
  | exit h t => exact exit_spec l hl h t
  | epoch t =>
    change wp (epoch t) _ _ l
    unfold epoch
    simp only [wp_bind, wp_modify, wp_get, wp_appendRecord]
    exact ⟨fun hroom => .note rfl hroom, fun hfull => ⟨hfull, .note rfl⟩⟩
  | affinity t cpu => exact happend rfl
  | startProfile t hash => exact happend rfl
  | stopProfile t hash => exact happend rfl
  | overhead t field => exact happend rfl

end Rules

/-! ### `check_reset` -/

section Reset

variable (l : RecordLog)

/-- The buffer after a dump. -/
def emptied : RecordLog := { l with records := [], regions := [] }

/-- `check_reset` only changes the map. -/
theorem reset_eq : ∃ m, l.reset = { l with enterMap := m } := by
  unfold reset
  split_ifs
  · split
    · split_ifs <;> exact ⟨_, rfl⟩
    · exact ⟨_, rfl⟩
  · exact ⟨_, rfl⟩

@[simp] theorem reset_process : l.reset.process = l.process := by
  obtain ⟨m, hm⟩ := l.reset_eq; rw [hm]

@[simp] theorem reset_records : l.reset.records = l.records := by
  obtain ⟨m, hm⟩ := l.reset_eq; rw [hm]

@[simp] theorem reset_regions : l.reset.regions = l.regions := by
  obtain ⟨m, hm⟩ := l.reset_eq; rw [hm]

@[simp] theorem reset_epochCount : l.reset.epochCount = l.epochCount := by
  obtain ⟨m, hm⟩ := l.reset_eq; rw [hm]

@[simp] theorem reset_enteredHash : l.reset.enteredHash = l.enteredHash := by
  obtain ⟨m, hm⟩ := l.reset_eq; rw [hm]

variable {l}

theorem reset_of_ne_nil (h : l.records ≠ []) : l.reset = l :=
  if_neg fun h' => h (eq_nil_of_length_eq_zero h')

/-- What `check_reset` leaves of an element when the buffer has been emptied. -/
def carried (info : RegionEnter) : Option RegionEnter :=
  if info.isShort then some { info with recordIdx := none, regionIdx := none } else none

theorem carried_eq_some {info info' : RegionEnter} : carried info = some info' ↔
    info.isShort = true ∧ info' = { info with recordIdx := none, regionIdx := none } := by
  unfold carried
  split_ifs with h
  · rw [Option.some.injEq, eq_comm]
    exact ⟨fun h' => ⟨h, h'⟩, fun h' => h'.2⟩
  · exact ⟨nofun, fun h' => absurd h'.1 h⟩

theorem bind_carried_carried (o : Option RegionEnter) :
    (o.bind carried).bind carried = o.bind carried := by
  cases o with
  | none => rfl
  | some info =>
    cases hcarried : carried info with
    | none => rw [bind_some, hcarried]; rfl
    | some info' =>
      obtain ⟨hs, rfl⟩ := carried_eq_some.mp hcarried
      rw [bind_some, hcarried]
      exact carried_eq_some.mpr ⟨hs, rfl⟩

theorem reset_enterMap (h : l.records = []) (hash : ℕ) :
    l.reset.enterMap hash =
      if hash = l.enteredHash then (l.enterMap hash).bind carried else none := by
  unfold reset carried
  rw [if_pos (by rw [h]; rfl)]
  by_cases hhash : hash = l.enteredHash
  · subst hhash
    cases l.enterMap l.enteredHash with
    | none => simp
    | some info => by_cases hs : info.isShort <;> simp [hs]
  · cases l.enterMap l.enteredHash with
    | none => simp [hhash]
    | some info => by_cases hs : info.isShort <;> simp [hs, hhash]

/-- It does not matter whether `check_reset` has been performed before a dump. -/
theorem reset_emptied_reset (l : RecordLog) : l.reset.emptied.reset = l.emptied.reset := by
  by_cases hnil : l.records = []
  · obtain ⟨m, hm⟩ := l.emptied.reset_eq
    obtain ⟨m', hm'⟩ := l.reset.emptied.reset_eq
    have hmap : m' = m := by
      funext hash
      have h' : l.reset.emptied.reset.enterMap hash = m' hash := by rw [hm']
      have h : l.emptied.reset.enterMap hash = m hash := by rw [hm]
      rw [← h', ← h, reset_enterMap rfl, reset_enterMap rfl]
      change (if hash = l.reset.enteredHash then (l.reset.enterMap hash).bind carried else none) =
        if hash = l.enteredHash then (l.enterMap hash).bind carried else none
      rw [reset_enteredHash, reset_enterMap hnil]
      split_ifs
      · rw [bind_carried_carried]
      · rfl
    rw [hm', hm, hmap]
    obtain ⟨n, hn⟩ := l.reset_eq
    rw [hn]
    rfl
  · rw [reset_of_ne_nil hnil]

/-- The elements that `check_reset` leaves alone. -/
theorem reset_eq_self : l.reset = l ↔ (l.records = [] → ∀ hash, l.enterMap hash =
    if hash = l.enteredHash then (l.enterMap hash).bind carried else none) := by
  constructor
  · intro h hnil hash
    rw [← reset_enterMap hnil, h]
  · intro h
    by_cases hnil : l.records = []
    · obtain ⟨m, hm⟩ := l.reset_eq
      have hmap : m = l.enterMap := by
        funext hash
        rw [h hnil hash, ← reset_enterMap hnil, hm]
      rw [hm, hmap]
    · exact reset_of_ne_nil hnil

end Reset

end RecordLog

/-! ### The map describes the buffer -/

/-- The region the application is in after a call, and the time it was entered. -/
def openNext (o : Option (ℕ × ℤ)) : LogCall → Option (ℕ × ℤ)
  | .enter h t => some (h, t)
  | .exit _ _ => none
  | _ => o

theorem openNext_of_note {R : RecordLog} {c : LogCall} {x : Record × ℕ} (h : R.noteOf c = some x)
    (o : Option (ℕ × ℤ)) : openNext o c = o := by
  cases c <;> first | rfl | cases h

/-- The region the application is in after some calls, and the time it was entered. -/
def openOf (calls : List LogCall) : Option (ℕ × ℤ) := calls.foldl openNext none

/-- Regions are entered one at a time, and left before the next one is entered. -/
def Alternates (o : Option (ℕ × ℤ)) : LogCall → Prop
  | .enter _ _ => o = none
  | .exit h _ => ∃ t, o = some (h, t)
  | _ => True

/-- The last entry or exit among the records is the entry into `h` at `t`, after `pre`. -/
def LastEntry (p : ℤ) (h : ℕ) (t : ℤ) (rs pre : List Record) : Prop :=
  ∃ post, rs = pre ++ ⟨t, p, .regionEntry, h⟩ :: post ∧ ∀ r ∈ post, r.isBoundary = false

/-- The element `info` of the region `h` describes the buffer, while the application is in the
region `o`. -/
structure Element (o : Option (ℕ × ℤ)) (R : RecordLog) (h : ℕ) (info : RegionEnter) : Prop where
  since : ∀ t, o = some (h, t) → info.enterTime = t
  /-- An element without an index is that of a short region. -/
  kept : info.recordIdx = none → info.regionIdx = none ∧ info.isShort = true
  /-- An element with a record but no region is that of the last entry. -/
  pending : ∀ i, info.recordIdx = some i → info.regionIdx = none →
    info.isShort = false ∧ o = some (h, info.enterTime) ∧
      ∃ pre, pre.length = i ∧ LastEntry R.process h info.enterTime R.records pre
  /-- An element with a region is that of a short region. -/
  short : ∀ g, info.regionIdx = some g →
    info.isShort = true ∧ ∃ region, R.regions[g]? = some region ∧ region.hash = h

/-- The map of the application process describes the buffer, after the records `dumped` have been
taken out of it and while the application is in the region `o`. -/
structure Mapped (o : Option (ℕ × ℤ)) (dumped : List Record) (R : RecordLog) : Prop where
  reset : R.reset = R
  entered : R.enteredHash = (o.map Prod.fst).getD regionHashInvalid
  element : ∀ {h info}, R.enterMap h = some info → Element o R h info
  /-- The entry into a region that has no element has been dumped. -/
  logged : ∀ {h t}, o = some (h, t) → R.enterMap h = none →
    ∃ pre, LastEntry R.process h t (dumped ++ R.records) pre

section Mapped

open RecordLog

variable {o o' : Option (ℕ × ℤ)} {dumped : List Record} {R R' : RecordLog} {c : LogCall}
  {h : ℕ} {t : ℤ} {info : RegionEnter}

/-- The short regions are the same, or have been visited again, or there are more of them. -/
def SameHashes (rs rs' : List ShortRegion) : Prop :=
  ∀ (g : ℕ) (region : ShortRegion), rs[g]? = some region →
    ∃ region', rs'[g]? = some region' ∧ region'.hash = region.hash

theorem SameHashes.refl (rs : List ShortRegion) : SameHashes rs rs := fun _ region hregion =>
  ⟨region, hregion, rfl⟩

theorem SameHashes.append (rs rs' : List ShortRegion) : SameHashes rs (rs ++ rs') := by
  intro g region hregion
  obtain ⟨hlt, -⟩ := List.getElem?_eq_some_iff.mp hregion
  exact ⟨region, by rw [getElem?_append_left hlt, hregion], rfl⟩

theorem SameHashes.complete (rs : List ShortRegion) (i : ℕ) (t₀ t : ℤ) :
    SameHashes rs (rs.modify i (RecordLog.complete t₀ t)) := by
  intro g region hregion
  rw [getElem?_modify, hregion]
  split_ifs
  · exact ⟨_, rfl, rfl⟩
  · exact ⟨_, rfl, rfl⟩

/-- The element of a region that the application is not in, before and after the call. -/
theorem Element.of_outside (he : Element o R h info) (ho : ∀ t, o ≠ some (h, t))
    (ho' : ∀ t, o' ≠ some (h, t)) (hregions : SameHashes R.regions R'.regions) : Element o' R' h info where
  since t heq := absurd heq (ho' t)
  kept := he.kept
  pending i hi hg := absurd (he.pending i hi hg).2.1 (ho _)
  short g hg := by
    obtain ⟨hs, region, hregion, rfl⟩ := he.short g hg
    exact ⟨hs, hregions g region hregion⟩

theorem Element.of_region {i g : ℕ} (hregion : ∃ region, R.regions[g]? = some region ∧
    region.hash = h) : Element none R h ⟨some i, some g, t, true⟩ where
  since t ho := by cases ho
  kept hi := by cases hi
  pending i hi hg := by cases hg
  short g' hg := by
    cases hg
    exact ⟨rfl, hregion⟩

theorem Mapped.of_nil (ht : Mapped o dumped R) (hnil : R.records = [])
    (hmap : R.enterMap h = some info) :
    h = R.enteredHash ∧ info.recordIdx = none ∧ info.regionIdx = none ∧ info.isShort = true := by
  have hreset := reset_eq_self.mp ht.reset hnil h
  rw [hmap, bind_some] at hreset
  split_ifs at hreset with heq
  obtain ⟨hs, hinfo⟩ := carried_eq_some.mp hreset.symm
  rw [hinfo]
  exact ⟨heq, rfl, rfl, hs⟩

theorem LastEntry.append {p : ℤ} {rs pre : List Record} {r : Record}
    (hl : LastEntry p h t rs pre) (hr : r.isBoundary = false) :
    LastEntry p h t (rs ++ [r]) pre := by
  obtain ⟨post, rfl, hpost⟩ := hl
  refine ⟨post ++ [r], by rw [append_assoc, cons_append], fun x hx => ?_⟩
  rcases mem_append.mp hx with hx | hx
  · exact hpost x hx
  · rw [mem_singleton.mp hx]; exact hr

theorem LastEntry.concat {p : ℤ} (rs : List Record) :
    LastEntry p h t (rs ++ [⟨t, p, .regionEntry, h⟩]) rs := ⟨[], rfl, nofun⟩

theorem LastEntry.prepend {p : ℤ} {rs pre : List Record} (hl : LastEntry p h t rs pre)
    (ss : List Record) : LastEntry p h t (ss ++ rs) (ss ++ pre) := by
  obtain ⟨post, rfl, hpost⟩ := hl
  exact ⟨post, by rw [append_assoc], hpost⟩

theorem lookup_setEnter (h' : ℕ) :
    (R.setEnter h info).enterMap h' = if h' = h then some info else R.enterMap h' := by
  rw [setEnter_enterMap, Function.update_apply]

section

variable (ht : Mapped o dumped R)
include ht

theorem Mapped.indexed : R.Indexed := fun _ _ hmap hrec =>
  ((ht.element hmap).kept hrec).1

/-- The elements after that of `h` has been assigned, when no other region is entered or left. -/
theorem Mapped.elements_setEnter (info : RegionEnter)
    (hmap : R'.enterMap = (R.setEnter h info).enterMap) (hnew : Element o' R' h info)
    (ho : ∀ x ∈ o, x.1 = h) (ho' : ∀ x ∈ o', x.1 = h) (hregions : SameHashes R.regions R'.regions) :
    ∀ {k info'}, R'.enterMap k = some info' → Element o' R' k info' := by
  intro k info' hlookup
  rw [hmap, lookup_setEnter] at hlookup
  split_ifs at hlookup with heq
  · cases hlookup
    exact heq ▸ hnew
  · exact (ht.element hlookup).of_outside (fun t h' => heq (ho _ h')) (fun t h' => heq (ho' _ h'))
      hregions

/-- The map describes the buffer after a call. -/
theorem Mapped.logged_step (halt : Alternates o c)
    (hstep : Logged R c R') : Mapped (openNext o c) dumped R' := by
  cases hstep with
  | @enterNew h t hmap =>
    obtain rfl : o = none := halt
    refine ⟨reset_of_ne_nil (by simp), rfl, ?_, ?_⟩
    · refine ht.elements_setEnter _ (by rfl) ?_ (by simp) (by simp [openNext])
        (by exact SameHashes.refl _)
      refine ⟨fun t' h' => by cases h'; rfl, nofun, ?_, nofun⟩
      rintro i hi -
      exact ⟨rfl, rfl, _, Option.some.inj hi, LastEntry.concat _⟩
    · intro h' t' ho hnone
      cases ho
      simp [setEnter] at hnone
  | @enterAgain h t info hmap =>
    obtain rfl : o = none := halt
    have he := ht.element hmap
    refine ⟨reset_eq_self.mpr fun hnil k => ?_, rfl, ?_, ?_⟩
    · obtain ⟨heq, hrec, hreg, hs⟩ := ht.of_nil hnil hmap
      change (R.setEnter h { info with enterTime := t }).enterMap k =
        if k = h then ((R.setEnter h { info with enterTime := t }).enterMap k).bind carried
        else none
      rw [lookup_setEnter]
      split_ifs with hk
      · rw [bind_some, eq_comm, carried_eq_some]
        exact ⟨hs, by rw [hrec, hreg]⟩
      · by_contra hne
        obtain ⟨info', hlookup⟩ := ne_none_iff_exists'.mp hne
        exact hk ((ht.of_nil hnil hlookup).1.trans heq.symm)
    · refine ht.elements_setEnter _ (by rfl) ?_ (by simp) (by simp [openNext])
        (by exact SameHashes.refl _)
      refine ⟨fun t' h' => by cases h'; rfl, he.kept, fun i hi hg => ?_, he.short⟩
      exact absurd (he.pending i hi hg).2.1 nofun
    · intro h' t' ho hnone
      cases ho
      simp [setEnter] at hnone
  | @exitPlain h t hmap =>
    obtain ⟨t₀, rfl⟩ := halt
    refine ⟨reset_of_ne_nil (by simp), rfl, ?_, nofun⟩
    intro k info hlookup
    have hne : k ≠ h := by
      rintro rfl
      rw [hmap] at hlookup
      cases hlookup
    exact (ht.element hlookup).of_outside (fun t h' => hne (by cases h'; rfl)) nofun
      (by exact SameHashes.refl _)
  | @exitPending h i t t₁ b hmap =>
    obtain ⟨t₀, rfl⟩ := halt
    obtain ⟨rfl, ho, pre, hpre, post, hrecords, -⟩ := (ht.element hmap).pending i rfl rfl
    refine ⟨reset_of_ne_nil ?_, rfl, ?_, nofun⟩
    · simp [hrecords]
    · exact ht.elements_setEnter _ (by rfl) (.of_region (h := h) ⟨complete t₁ t ⟨h, 0, 0⟩, by simp, rfl⟩)
        (by simp) (by simp) (by exact SameHashes.append _ _)
  | @exitKept h t t₁ b hmap =>
    obtain ⟨t₀, rfl⟩ := halt
    refine ⟨reset_of_ne_nil (by simp), rfl, ?_, nofun⟩
    exact ht.elements_setEnter _ (by rfl) (.of_region (h := h) ⟨complete t₁ t ⟨h, 0, 0⟩, by simp, rfl⟩)
      (by simp) (by simp) (by exact SameHashes.append _ _)
  | @exitShort h i g t t₁ b hmap =>
    obtain ⟨t₀, rfl⟩ := halt
    obtain ⟨-, region, hregion, rfl⟩ := (ht.element hmap).short g rfl
    refine ⟨reset_of_ne_nil ?_, rfl, ?_, nofun⟩
    · rintro hnil
      obtain ⟨-, hrec, -⟩ := ht.of_nil hnil hmap
      cases hrec
    · exact ht.elements_setEnter _ (by rfl)
        (.of_region (SameHashes.complete R.regions g t₁ t g region hregion))
        (by simp) (by simp) (by exact SameHashes.complete _ _ _ _)
  | @note c record epochs hnote =>
    have hrecord := noteOf_isBoundary hnote
    rw [openNext_of_note hnote]
    refine ⟨reset_of_ne_nil (by simp), ht.entered, fun hlookup => ?_, fun ho hnone => ?_⟩
    · have he := ht.element hlookup
      refine ⟨he.since, he.kept, fun i hi hg => ?_, he.short⟩
      obtain ⟨hs, ho, pre, hpre, hlast⟩ := he.pending i hi hg
      exact ⟨hs, ho, pre, hpre, hlast.append hrecord⟩
    · obtain ⟨pre, hlast⟩ := ht.logged ho hnone
      exact ⟨pre, by rw [← append_assoc]; exact hlast.append hrecord⟩

theorem Mapped.dump_step :
    Mapped o (dumped ++ R.records) R.emptied.reset := by
  have hmap : ∀ k, R.emptied.reset.enterMap k =
      if k = R.enteredHash then (R.enterMap k).bind carried else none := reset_enterMap rfl
  refine ⟨?_, ?_, ?_, ?_⟩
  · refine reset_eq_self.mpr fun _ k => ?_
    rw [hmap, reset_enteredHash]
    change _ = if k = R.enteredHash then _ else _
    split_ifs
    · rw [bind_carried_carried]
    · rfl
  · rw [reset_enteredHash]; exact ht.entered
  · intro k info hlookup
    rw [hmap] at hlookup
    split_ifs at hlookup with heq
    obtain ⟨info', hlookup', hcarried⟩ := bind_eq_some_iff.mp hlookup
    obtain ⟨hs, rfl⟩ := carried_eq_some.mp hcarried
    exact ⟨(ht.element hlookup').since, fun _ => ⟨rfl, hs⟩, nofun, nofun⟩
  · intro h t ho hnone
    have hentered : h = R.enteredHash := by rw [ht.entered, ho]; rfl
    rw [hmap, if_pos hentered] at hnone
    rw [reset_records, reset_process]
    change ∃ pre, LastEntry R.process h t (dumped ++ R.records ++ []) pre
    rw [append_nil]
    cases hlookup : R.enterMap h with
    | none => exact ht.logged ho hlookup
    | some info =>
      -- A region that is not carried over the dump is not short yet.
      have he := ht.element hlookup
      have hs : ¬ info.isShort = true := fun hs => by
        rw [hlookup, bind_some, carried, if_pos hs] at hnone
        cases hnone
      cases hrec : info.recordIdx with
      | none => exact absurd (he.kept hrec).2 hs
      | some i =>
        cases hreg : info.regionIdx with
        | some g => exact absurd (he.short g hreg).1 hs
        | none =>
          obtain ⟨-, ho', pre, -, hlast⟩ := he.pending i hrec hreg
          rw [he.since t ho] at hlast
          exact ⟨dumped ++ pre, hlast.prepend dumped⟩

end

end Mapped

/-! ### Runs -/

namespace LogSystem

open RecordLog

/-- The call is not refused. -/
def Fits (s : LogSystem) : LogAction → Prop
  | .call c => wp c.run (fun _ _ => True) (fun _ _ => False) s.log
  | .dump => True

/-- The application enters and leaves regions in turn. -/
def InTurn (s : LogSystem) : LogAction → Prop
  | .call c => Alternates (openOf s.calls) c
  | .dump => True

/-- The map describes the buffer. -/
def MapTracked (s : LogSystem) : Prop :=
  Mapped (openOf s.calls) s.dumpedRecords s.log.reset

variable (s : LogSystem)

theorem afterDump_eq : s.afterDump =
    { s with log := s.log.emptied, dumps := s.dumps ++ [(s.log.records, s.log.regions)] } := rfl

/-- A call that fits, after `check_reset`. -/
theorem afterCall_spec {s : LogSystem} {c : LogCall} (hs : s.log.reset.Indexed)
    (hfits : s.Fits (.call c)) : ∃ l', Logged s.log.reset c l' ∧
      s.afterCall c = { s with log := l', calls := s.calls ++ [c] } := by
  have hspec := wp_and (run_spec s.log hs c) hfits
  unfold afterCall
  unfold wp at hspec
  split at hspec
  · next a l' hrun => exact ⟨l', hspec.1, by rw [hrun]⟩
  · exact hspec.2.elim

theorem openOf_concat (calls : List LogCall) (c : LogCall) :
    openOf (calls ++ [c]) = openNext (openOf calls) c := by
  simp only [openOf, List.foldl_append, foldl_cons, foldl_nil]

theorem dumpedRecords_afterDump :
    s.afterDump.dumpedRecords = s.dumpedRecords ++ s.log.records := by
  rw [afterDump_eq, dumpedRecords, dumpedRecords, map_append, flatten_append]
  simp

theorem dumpedRegions_afterDump :
    s.afterDump.dumpedRegions = s.dumpedRegions ++ s.log.regions := by
  rw [afterDump_eq, dumpedRegions, dumpedRegions, map_append, flatten_append]
  simp

theorem mapTracked_next {s : LogSystem} {a : LogAction} (hs : s.MapTracked) (hfits : s.Fits a)
    (hturn : s.InTurn a) : (s.next a).MapTracked := by
  cases a with
  | call c =>
    obtain ⟨l', hlogged, hnext⟩ := afterCall_spec hs.indexed hfits
    change (s.afterCall c).MapTracked
    rw [hnext, MapTracked, openOf_concat]
    have ht := hs.logged_step hturn hlogged
    rw [← ht.reset] at ht
    exact ht
  | dump =>
    have ht := hs.dump_step
    rw [reset_records, ← dumpedRecords_afterDump, reset_emptied_reset] at ht
    exact ht

theorem mapTracked_init (p : ℤ) : (init p).MapTracked where
  reset := reset_eq_self.mpr fun _ k => by split_ifs <;> rfl
  entered := rfl
  element hlookup := by cases hlookup
  logged ho := by cases ho

theorem mapTracked_of_reachable {p : ℤ} {s : LogSystem}
    (h : logSystem.ReachableIf (fun s a => s.Fits a ∧ s.InTurn a) (init p) s) : s.MapTracked := by
  refine h.invariant (mapTracked_init p) ?_
  rintro s a _ hs ⟨hfits, hturn⟩ rfl
  exact mapTracked_next hs hfits hturn

end LogSystem

end Geopm
