import Geopm.Session.Session

/-!
# The sampling loop of a session

* `scripted` : an agent that does what the environment says;
* `Guarded` : a statement that raises no error of the session's own, with the condition under which
  it returns, and the rules for it;
* `samplingLoop_own` : the loop raises an error of its own exactly when it divides by zero;
* `Reporting` : each sample is counted once, and a report is closed every `report_samples` periods;
  each iteration keeps this (`iteration_reporting`), so the loop does (`samplingLoop_reporting`);
* `keeps_samplingLoop` : the loop keeps what its agent keeps.
-/

namespace Geopm

namespace Session

open Prog
open List hiding modify

/-! ### Rules -/

section Rules

variable {α β ε : Type} {w : World α} {E : Raised → World α → Prop}

@[simp] theorem wp_attempt {o : Option External} {Q : Unit → World α → Prop} :
    wp (attempt o) Q E w ↔ (o = none → Q () w) ∧ ∀ e, o = some e → E (.external e) w := by
  cases o <;> simp [attempt]

@[simp] theorem wp_ofExcept {r : Except ε β} {f : ε → Raised} {Q : β → World α → Prop} :
    wp (ofExcept f r) Q E w ↔
      (∀ b, r = .ok b → Q b w) ∧ ∀ e, r = .error e → E (f e) w := by
  cases r <;> simp [ofExcept]

theorem keeps_attempt {τ : Type} {view : World α → τ} (o : Option External) :
    Prog.Keeps view (attempt o) := by
  intro w
  cases o <;> exact rfl

theorem keeps_ofExcept {τ : Type} {view : World α → τ} (f : ε → Raised) (r : Except ε β) :
    Prog.Keeps view (ofExcept f r) := by
  intro w
  cases r <;> exact rfl

end Rules

/-- The exception was raised by a statement of the session. -/
def Raised.isOwn : Raised → Bool
  | .own _ => true
  | .external _ => false

@[simp] theorem isOwn_external (e : External) : (Raised.external e).isOwn = false := rfl

@[simp] theorem isOwn_own (e : OwnError) : (Raised.own e).isOwn = true := rfl

/-- An agent that does what the environment says. -/
def scripted : Agent Unit where
  runBegin env := do
    (if env.beginSaves then Pio.saveControl none else pure ())
    modify fun w =>
      { w with settings := env.beginWrites.foldl (Settings.write w.effect) w.settings }
    attempt env.beginFails
  updateLoop t := do
    modify fun w => { w with settings := t.writes.foldl (Settings.write w.effect) w.settings }
    attempt t.updateFails
  runEnd env := attempt env.endFails

/-- The report that counts the sample `i` when one is closed every `n` periods: the sample `0`
begins the first period, so it is in the first report. -/
def window (n i : ℕ) : ℕ := (i - 1) / n

/-- The reports count each sample once, and one is closed every `report_samples` periods. -/
structure Reported (args : Args) (w : World Unit) : Prop where
  once : w.reports.flatten = List.range w.taken
  closed : ∀ n : ℕ, n ≠ 0 → args.reportSamples = some (n : ℤ) →
    ∀ (k : ℕ) (r : List ℕ), w.reports[k]? = some r → ∀ i ∈ r, window n i = k

/-- The iteration `idx` gets to its end, where a report may be due. -/
def completes (args : Args) (idx : ℕ) (t : Tick) : Bool :=
  (idx == 0 || t.readFails.isNone) && t.updateFails.isNone &&
    (!args.outStream || t.traceFails.isNone) && (!args.doReport || t.statsFails.isNone) &&
    (!args.watches || match t.active with
      | .ok active => active
      | .error _ => false)

/-- Reports are due every `0` samples. -/
def isZero (args : Args) : Bool := args.doReport && args.reportSamples == some 0

/-- A report is due every `0` samples, and the second sample is complete. -/
def dividesByZero (args : Args) (num : Option ℤ) : List Tick → Bool
  | t₀ :: t₁ :: _ => isZero args && completes args 0 t₀ && num != some 0 &&
    t₁.sleepFails.isNone && completes args 1 t₁
  | _ => false

/-! ### Statements that raise no error of the session's own -/

/-- `m` returns exactly when `b`, and what it raises is not an error of the session's own. -/
def Guarded {β : Type} (b : Bool) (m : Py Unit β) : Prop :=
  ∀ w, wp m (fun _ _ => b = true) (fun e _ => b = false ∧ e.isOwn = false) w

section Guarded

variable {β γ : Type} {b c : Bool} {m : Py Unit β} {n : β → Py Unit γ} {w : World Unit}
  {Q : γ → World Unit → Prop} {E : Raised → World Unit → Prop}

/-- The statements after a guarded one run when its condition holds. -/
theorem Guarded.wp_bind (hm : Guarded b m) (hn : b = true → ∀ a w', wp (n a) Q E w')
    (he : b = false → ∀ e w', e.isOwn = false → E e w') : wp (m >>= n) Q E w := by
  rw [Prog.wp_bind]
  exact wp_mono (hm w) (fun a w' hb => hn hb a w') fun e w' h => he h.1 e w' h.2

theorem Guarded.bind (hm : Guarded b m) (hn : ∀ a, Guarded c (n a)) :
    Guarded (b && c) (m >>= n) := by
  intro w
  refine hm.wp_bind (fun hb a w' => ?_) fun hb e w' he => ⟨by simp [hb], he⟩
  rw [hb, Bool.true_and]
  exact hn a w'

theorem guarded_attempt (o : Option External) : Guarded o.isNone (attempt o) := by
  intro w
  cases o <;> simp [attempt]

theorem Guarded.modify (hm : Guarded b m) (g : World Unit → World Unit) :
    Guarded b (m >>= fun _ => modify g) := fun _ =>
  hm.wp_bind (fun hb _ _ => hb) fun hb _ _ he => ⟨hb, he⟩

theorem Guarded.when {m : Py Unit Unit} {p : Prop} [Decidable p] (hm : Guarded b m)
    (hc : c = true ↔ ¬ p) : Guarded (c || b) (if p then m else pure ()) := by
  intro w
  split_ifs with hp
  · have hc' : c = false := by rw [← Bool.not_eq_true, hc, not_not]; exact hp
    rw [hc', Bool.false_or]
    exact hm w
  · rw [hc.mpr hp, Bool.true_or]
    exact rfl

end Guarded

theorem guarded_takeSample (idx : ℕ) (t : Tick) :
    Guarded (idx == 0 || t.readFails.isNone) (takeSample idx t) :=
  (((guarded_attempt t.readFails).modify _).when (p := idx ≠ 0) (by simp)).modify _

theorem guarded_updateLoop (t : Tick) : Guarded t.updateFails.isNone (scripted.updateLoop t) :=
  fun _ => guarded_attempt _ _

theorem guarded_updateStats (idx : ℕ) (o : Option External) :
    Guarded o.isNone (updateStats idx o) :=
  (guarded_attempt o).modify _

theorem guarded_writeReport (o : Option External) : Guarded o.isNone (writeReport o) :=
  (guarded_attempt o).modify _

theorem guarded_resetStats (o : Option External) : Guarded o.isNone (resetStats o) :=
  (guarded_attempt o).modify _

/-! ### The sampling loop -/

variable {args : Args} {idx : ℕ}

variable (w : World Unit)

/-- The end of an iteration raises only where a report is due, and an error of the session's own
exactly when one is due every `0` samples. -/
theorem closeReport_own {t : Tick} :
    wp (closeReport args idx t) (fun _ _ => (reportDue args idx).isOk = true)
      (fun e _ => e.isOwn = !(reportDue args idx).isOk ∧ reportDue args idx ≠ .ok false) w := by
  unfold closeReport
  rw [wp_bind, wp_ofExcept]
  refine ⟨fun due hdue => ?_, fun e he => by rw [he]; exact ⟨rfl, nofun⟩⟩
  rw [hdue, wp_ite]
  refine ⟨fun hd => ?_, fun _ => rfl⟩
  subst hd
  exact (guarded_writeReport _).wp_bind
    (fun _ _ w' => wp_mono (guarded_resetStats _ w') (fun _ _ _ => rfl) fun _ _ h => ⟨h.2, nofun⟩)
    fun _ _ _ h => ⟨h, nofun⟩

/-- An iteration raises an error of the session's own exactly when it gets to a report that is due
every `0` samples. -/
theorem iteration_own {t : Tick} :
    wp (iteration scripted args idx t)
      (fun goesOn _ => goesOn = completes args idx t ∧
        (goesOn = true → (reportDue args idx).isOk = true))
      (fun e _ => e.isOwn = (completes args idx t && !(reportDue args idx).isOk) ∧
        (completes args idx t = true → reportDue args idx ≠ .ok false)) w := by
  unfold iteration completes
  refine (guarded_takeSample idx t).wp_bind (fun hread _ w => ?_) fun hb e _ he => by simp [hb, he]
  refine (guarded_updateLoop t).wp_bind (fun hupdate _ w => ?_) fun hb e _ he => by simp [hb, he]
  refine ((guarded_attempt t.traceFails).when (c := !args.outStream) (by simp)).wp_bind
    (fun htrace _ w => ?_) fun hb e _ he => by simp [hb, he]
  refine ((guarded_updateStats idx t.statsFails).when (c := !args.doReport) (by simp)).wp_bind
    (fun hstats _ w => ?_) fun hb e _ he => by simp [hb, he]
  rw [hread, hupdate, htrace, hstats]
  simp only [Bool.true_and]
  have hactive : ∀ active w', wp (do
      if active then do
        closeReport args idx t
        return true
      else return false : Py Unit Bool)
      (fun goesOn _ => goesOn = active ∧ (goesOn = true → (reportDue args idx).isOk = true))
      (fun e _ => e.isOwn = (active && !(reportDue args idx).isOk) ∧
        (active = true → reportDue args idx ≠ .ok false)) w' := by
    intro active w'
    cases active with
    | false => simp
    | true =>
      rw [if_pos rfl, wp_bind]
      exact wp_mono (closeReport_own w') (fun _ _ h => ⟨rfl, fun _ => h⟩)
        fun _ _ h => ⟨h.1, fun _ => h.2⟩
  rw [wp_bind]
  by_cases hw : args.watches = true
  · rw [if_pos hw, wp_ofExcept, hw]
    refine ⟨fun active ha => ?_, fun e he => ?_⟩
    · rw [ha]
      exact hactive active w
    · rw [he]
      exact ⟨rfl, nofun⟩
  · rw [if_neg hw, Bool.not_eq_true _ |>.mp hw]
    exact hactive true w

theorem reportDue_isOk (args : Args) (idx : ℕ) :
    (reportDue args idx).isOk = !(idx != 0 && isZero args) := by
  unfold reportDue isZero
  cases args.reportSamples with
  | none => simp [Except.isOk, Except.toBool]
  | some n =>
    by_cases hidx : idx = 0
    · simp [hidx, Except.isOk, Except.toBool]
    · cases args.doReport with
      | false => simp [Except.isOk, Except.toBool]
      | true =>
        by_cases hn : n = 0
        · simp [hidx, hn, Except.isOk, Except.toBool]
        · simp [hidx, hn, Except.isOk, Except.toBool]

variable {num : Option ℤ} {signum : ℤ} {ticks : List Tick}

/-- Where reports are due every `0` samples, the loop does not go on after the second iteration. -/
theorem samplingLoop_own_of_isZero (hz : isZero args = true) (hidx : idx ≠ 0) (w : World Unit) :
    wp (samplingLoop scripted args num signum idx ticks)
      (fun _ _ => ∀ t ∈ ticks.head?, (t.sleepFails.isNone && completes args idx t) = false)
      (fun e _ => e.isOwn = ticks.head?.any fun t => t.sleepFails.isNone && completes args idx t)
      w := by
  cases ticks with
  | nil => exact rfl
  | cons t ts =>
    have hdue : (reportDue args idx).isOk = false := by rw [reportDue_isOk, hz]; simp [hidx]
    unfold samplingLoop
    have hguard := (guarded_attempt t.sleepFails).when (p := idx ≠ 0) (c := false) (by simp [hidx])
    refine hguard.wp_bind (fun hsleep _ w => ?_) fun hb e _ he => ?_
    · rw [wp_bind]
      refine wp_mono (iteration_own w) (fun goesOn w' h => ?_) fun e w' h => ?_
      · have hgo : goesOn = false := by
          cases goesOn with
          | false => rfl
          | true => rw [hdue] at h; exact absurd (h.2 rfl) (by simp)
        rw [hgo] at h
        rw [hgo]
        simp [← h.1]
      · simp only [Bool.false_or] at hsleep
        simp [h.1, hdue, hsleep]
    · simp only [Bool.false_or] at hb
      simp [hb, he]

theorem samplingLoop_own_of_not_isZero (hz : isZero args = false) (w : World Unit) :
    wp (samplingLoop scripted args num signum idx ticks) (fun _ _ => True)
      (fun e _ => e.isOwn = false) w := by
  induction ticks generalizing idx w with
  | nil => exact rfl
  | cons t ts ih =>
    unfold samplingLoop
    refine ((guarded_attempt t.sleepFails).when (p := idx ≠ 0) (c := idx == 0) (by simp)).wp_bind
      (fun _ _ w => ?_) fun _ _ _ he => he
    rw [wp_bind]
    refine wp_mono (iteration_own w) (fun goesOn w' _ => ?_) fun e w' h => ?_
    · rw [wp_ite]
      exact ⟨fun _ => ih w', fun _ => trivial⟩
    · rw [h.1, reportDue_isOk, hz]
      simp

/-- The loop raises an error of the session's own exactly when it divides by zero. -/
theorem samplingLoop_own :
    wp (samplingLoop scripted args num signum 0 ticks)
      (fun _ _ => dividesByZero args num ticks = false)
      (fun e _ => e.isOwn = dividesByZero args num ticks) w := by
  cases hz : isZero args with
  | false =>
    have hd : dividesByZero args num ticks = false := by
      unfold dividesByZero
      split
      · rw [hz]; rfl
      · rfl
    rw [hd]
    exact wp_mono_ok (samplingLoop_own_of_not_isZero hz w) fun _ _ _ => rfl
  | true =>
    cases ticks with
    | nil => exact rfl
    | cons t ts =>
      have hdue : (reportDue args 0).isOk = true := by rw [reportDue_isOk]; rfl
      have hlast : isLast num 0 t = (num == some 0) := by simp [isLast]
      unfold samplingLoop
      rw [if_neg (by simp), pure_bind, wp_bind]
      refine wp_mono (iteration_own w) (fun goesOn w' h => ?_) fun e w' h => ?_
      · rw [wp_ite, h.1, hlast]
        refine ⟨fun hgo => ?_, fun hstop => ?_⟩
        · simp only [Bool.and_eq_true, Bool.not_eq_true', beq_eq_false_iff_ne] at hgo
          refine wp_mono (samplingLoop_own_of_isZero hz (by simp) w') (fun _ _ h' => ?_)
            fun e _ h' => ?_
          · cases ts with
            | nil => rfl
            | cons t₁ ts =>
              have h₁ := h' t₁ rfl
              simp only [Bool.and_eq_false_iff] at h₁
              rcases h₁ with h₁ | h₁
              · simp [dividesByZero, h₁]
              · simp [dividesByZero, h₁]
          · cases ts with
            | nil => exact h'
            | cons t₁ ts =>
              rw [h']
              simp [dividesByZero, hz, hgo.1, bne_iff_ne.mpr hgo.2]
        · change dividesByZero args num (t :: ts) = false
          cases ts with
          | nil => rfl
          | cons t₁ ts =>
            cases hc : completes args 0 t with
            | false => simp [dividesByZero, hc]
            | true =>
              have hnum : num = some 0 := by simpa [hc] using hstop
              simp [dividesByZero, hnum]
      · -- no report is due after the first sample, so the iteration was not complete
        have hnot : reportDue args 0 = .ok false := by
          unfold reportDue
          cases args.reportSamples <;> simp
        have hc : completes args 0 t = false := by
          rw [← Bool.not_eq_true]
          exact fun hc => h.2 hc hnot
        rw [h.1, hc]
        cases ts with
        | nil => rfl
        | cons t₁ ts => simp [dividesByZero, hc]

/-! ### The reports -/

/-- The samples before `idx` are counted once, in the reports or since the last of them. -/
structure Reporting (args : Args) (idx : ℕ) (w : World Unit) : Prop where
  taken : w.taken = idx
  once : w.reports.flatten ++ w.updates = List.range idx
  closed : ∀ n : ℕ, n ≠ 0 → args.reportSamples = some (n : ℤ) →
    ∀ (k : ℕ) (r : List ℕ), w.reports[k]? = some r → ∀ i ∈ r, window n i = k
  pending : ∀ n : ℕ, n ≠ 0 → args.reportSamples = some (n : ℤ) →
    ∀ i ∈ w.updates, window n i = w.reports.length

/-- The report of the sample `idx` is the next one to be written. -/
def Current (args : Args) (idx : ℕ) (w : World Unit) : Prop :=
  ∀ n : ℕ, n ≠ 0 → args.reportSamples = some (n : ℤ) → w.reports.length = window n idx

section Reports

variable {w w' : World Unit}

theorem Reporting.sample (h : Reporting args idx w) (hc : Current args idx w)
    (htaken : w'.taken = w.taken + 1) (hup : w'.updates = w.updates ++ [idx])
    (hrep : w'.reports = w.reports) : Reporting args (idx + 1) w' where
  taken := by rw [htaken, h.taken]
  once := by rw [hrep, hup, ← append_assoc, h.once, range_succ]
  closed := by rw [hrep]; exact h.closed
  pending := by
    intro n hn hs i hi
    rw [hup, mem_append, mem_singleton] at hi
    rw [hrep]
    rcases hi with hi | rfl
    · exact h.pending n hn hs i hi
    · exact (hc n hn hs).symm

/-- The samples since the last report are written as the next one. -/
theorem Reporting.write (h : Reporting args idx w) (htaken : w'.taken = w.taken)
    (hup : w'.updates = []) (hrep : w'.reports = w.reports ++ [w.updates]) :
    Reporting args idx w' where
  taken := htaken.trans h.taken
  once := by
    rw [hrep, hup, flatten_append, append_nil]
    simpa using h.once
  closed := by
    intro n hn hs k r hr i hi
    rw [hrep] at hr
    rcases Nat.lt_trichotomy k w.reports.length with hk | rfl | hk
    · rw [getElem?_append_left hk] at hr
      exact h.closed n hn hs k r hr i hi
    · rw [getElem?_concat_length] at hr
      cases hr
      exact h.pending n hn hs i hi
    · rw [getElem?_eq_none (by rw [length_append, length_singleton]; omega)] at hr
      cases hr
  pending := by
    intro n _ _ i hi
    rw [hup] at hi
    cases hi

theorem Reporting.reported (h : Reporting args idx w) (hup : w.updates = []) :
    Reported args w where
  once := by
    have honce := h.once
    rw [hup, append_nil] at honce
    rw [honce, h.taken]
  closed := h.closed

theorem window_succ_of_dvd {n : ℕ} (hidx : idx ≠ 0) (hd : n ∣ idx) :
    window n (idx + 1) = window n idx + 1 := by
  obtain ⟨i, rfl⟩ := Nat.exists_eq_succ_of_ne_zero hidx
  exact Nat.succ_div_of_dvd hd

theorem window_succ_of_not_dvd {n : ℕ} (hd : idx ≠ 0 → ¬ n ∣ idx) :
    window n (idx + 1) = window n idx := by
  cases idx with
  | zero => simp [window]
  | succ i => exact Nat.succ_div_of_not_dvd (hd (by simp))

theorem reportDue_eq_ok {n : ℕ} {due : Bool} (hdo : args.doReport = true) (hn : n ≠ 0)
    (hs : args.reportSamples = some (n : ℤ)) (h : reportDue args idx = .ok due) :
    due = true ↔ idx ≠ 0 ∧ n ∣ idx := by
  have hn' : (n : ℤ) ≠ 0 := by exact_mod_cast hn
  simp only [reportDue, hs, hdo, Bool.true_and, hn', if_false] at h
  by_cases hidx : idx = 0
  · simp only [hidx, ne_eq, not_true_eq_false, decide_false, Bool.false_eq_true, if_false,
      Except.ok.injEq] at h
    simp [← h, hidx]
  · simp only [ne_eq, hidx, not_false_eq_true, decide_true, if_true, Except.ok.injEq] at h
    rw [← h, decide_eq_true_eq, ← Int.dvd_iff_emod_eq_zero, Int.natCast_dvd_natCast]
    exact ⟨fun hd => ⟨hidx, hd⟩, fun hd => hd.2⟩

theorem closeReport_reporting {t : Tick} (hdo : args.doReport = true)
    (h : Reporting args (idx + 1) w) (hup : w.updates ≠ []) (hc : Current args idx w) :
    wp (closeReport args idx t)
      (fun _ w' => Reporting args (idx + 1) w' ∧ Current args (idx + 1) w')
      (fun _ _ => True) w := by
  unfold closeReport
  rw [wp_bind, wp_ofExcept]
  refine ⟨fun due hdue => ?_, fun _ _ => trivial⟩
  rw [wp_ite]
  refine ⟨fun hd => ?_, fun hd => ⟨h, fun n hn hs => ?_⟩⟩
  · simp only [writeReport, resetStats, wp_bind, wp_attempt, wp_modify, hup, if_false]
    refine ⟨fun _ => ⟨fun _ => ⟨h.write rfl rfl rfl, fun n hn hs => ?_⟩, fun _ _ => trivial⟩,
      fun _ _ => trivial⟩
    obtain ⟨hidx, hdvd⟩ := (reportDue_eq_ok hdo hn hs hdue).mp hd
    rw [window_succ_of_dvd hidx hdvd, ← hc n hn hs]
    exact length_append
  · rw [window_succ_of_not_dvd fun hidx hdvd =>
      hd ((reportDue_eq_ok hdo hn hs hdue).mpr ⟨hidx, hdvd⟩)]
    exact hc n hn hs

/-- What the reports are about. -/
def World.record {α : Type} (w : World α) : ℕ × List ℕ × List (List ℕ) :=
  (w.taken, w.updates, w.reports)

theorem keeps_updateLoop (t : Tick) : Prog.Keeps World.record (scripted.updateLoop t) :=
  Prog.Keeps.bind (.modify fun _ => rfl) fun _ => keeps_attempt _

theorem takeSample_record {t : Tick} (w : World Unit) :
    wp (takeSample idx t) (fun _ w' => w'.record = (w.taken + 1, w.updates, w.reports))
      (fun _ _ => True) w := by
  have hread : Prog.Keeps World.record
      (if idx ≠ 0 then Pio.readBatch t.readFails t.samples else pure () : Py Unit Unit) :=
    Prog.Keeps.ite (Prog.Keeps.bind (keeps_attempt _) fun _ => .modify fun _ => rfl) (.pure ())
  unfold takeSample
  rw [wp_bind]
  refine wp_mono (hread w) (fun _ w' h => ?_) fun _ _ _ => trivial
  simp only [World.record, Prod.mk.injEq] at h
  rw [wp_modify, World.record, h.1, h.2.1, h.2.2]

/-- An iteration counts its sample. -/
theorem iteration_reporting {t : Tick} (hdo : args.doReport = true)
    (h : Reporting args idx w) (hc : Current args idx w) :
    wp (iteration scripted args idx t)
      (fun goesOn w' => Reporting args (idx + 1) w' ∧
        (goesOn = true → Current args (idx + 1) w')) (fun _ _ => True) w := by
  have hend : ∀ (active : Bool) (w₁ : World Unit), w₁.taken = w.taken + 1 →
      w₁.updates = w.updates ++ [idx] → w₁.reports = w.reports → wp (do
      if active then do
        closeReport args idx t
        return true
      else return false : Py Unit Bool)
      (fun goesOn w' => Reporting args (idx + 1) w' ∧
        (goesOn = true → Current args (idx + 1) w')) (fun _ _ => True) w₁ := by
    intro active w₁ htaken hup hrep
    have h₁ := h.sample hc htaken hup hrep
    cases active with
    | false => exact ⟨h₁, nofun⟩
    | true =>
      rw [if_pos rfl, wp_bind]
      have hc₁ : Current args idx w₁ := fun n hn hs => by rw [hrep]; exact hc n hn hs
      exact wp_mono_ok (closeReport_reporting hdo h₁ (by simp [hup]) hc₁)
        fun _ _ h' => ⟨h'.1, fun _ => h'.2⟩
  unfold iteration
  rw [wp_bind]
  refine wp_mono (takeSample_record w) (fun _ w₁ h₁ => ?_) fun _ _ _ => trivial
  rw [wp_bind]
  refine wp_mono (keeps_updateLoop t w₁) (fun _ w₂ h₂ => ?_) fun _ _ _ => trivial
  rw [wp_bind]
  have htrace : Prog.Keeps World.record
      (if args.outStream then attempt t.traceFails else pure () : Py Unit Unit) :=
    .ite (keeps_attempt _) (.pure ())
  refine wp_mono (htrace w₂) (fun _ w₃ h₃ => ?_) fun _ _ _ => trivial
  have hrec : w₃.record = (w.taken + 1, w.updates, w.reports) := (h₃.trans h₂).trans h₁
  simp only [World.record, Prod.mk.injEq] at hrec
  obtain ⟨htaken, hup, hrep⟩ := hrec
  rw [wp_bind, if_pos hdo]
  simp only [updateStats, wp_bind, wp_attempt, wp_modify]
  refine ⟨fun _ => ?_, fun _ _ => trivial⟩
  have hend₃ := fun active => hend active { w₃ with updates := w₃.updates ++ [idx] } htaken
    (congrArg (· ++ [idx]) hup) hrep
  by_cases hw : args.watches = true
  · rw [if_pos hw, wp_ofExcept]
    exact ⟨fun active _ => hend₃ active, fun _ _ => trivial⟩
  · rw [if_neg hw]
    exact hend₃ true

theorem reporting_of_record (h : w.record = (0, [], [])) :
    Current args 0 w ∧ Reporting args 0 w := by
  simp only [World.record, Prod.mk.injEq] at h
  obtain ⟨htaken, hup, hrep⟩ := h
  refine ⟨fun n _ _ => ?_, htaken, ?_, fun n _ _ k r hr => ?_, fun n _ _ i hi => ?_⟩
  · rw [hrep, window, Nat.zero_sub, Nat.zero_div]
    rfl
  · rw [hrep, hup]
    rfl
  · rw [hrep] at hr
    cases hr
  · rw [hup] at hi
    cases hi

theorem samplingLoop_reporting {num : Option ℤ} {signum : ℤ} {ticks : List Tick}
    (hdo : args.doReport = true) (h : Reporting args idx w) (hc : Current args idx w) :
    wp (samplingLoop scripted args num signum idx ticks)
      (fun _ w' => ∃ m, Reporting args m w') (fun _ _ => True) w := by
  induction ticks generalizing idx w with
  | nil => exact trivial
  | cons t ts ih =>
    unfold samplingLoop
    rw [wp_bind]
    have hsleep : Prog.Keeps id (if idx ≠ 0 then attempt t.sleepFails else pure () : Py Unit Unit) :=
      .ite (keeps_attempt _) (.pure ())
    refine wp_mono (hsleep w) (fun _ w₁ h₁ => ?_) fun _ _ _ => trivial
    rw [wp_bind, show w₁ = w from h₁]
    refine wp_mono (iteration_reporting hdo h hc) (fun goesOn w' h' => ?_) fun _ _ _ => trivial
    rw [wp_ite]
    refine ⟨fun hgo => ?_, fun _ => ⟨idx + 1, h'.1⟩⟩
    rw [Bool.and_eq_true] at hgo
    exact ih h'.1 (h'.2 hgo.1)

end Reports

/-! ### What the loop keeps -/

/-- What is restored, called and ended. -/
def World.marks {α : Type} (w : World α) :
    Option Settings × Option Settings × Bool × Bool × Bool × Bool :=
  (w.snapshot, w.saved, w.launched, w.killed, w.restored, w.runEndCalled)

section Keeps

variable {α τ : Type} {view : World α → τ} {agent : Agent α}

/-- What `view` shows is not about the samples, their statistics and the reports. -/
def NotSampled (view : World α → τ) : Prop :=
  ∀ (w : World α) (samples : ℕ → Double) (taken : ℕ) (updates : List ℕ) (reports : List (List ℕ)),
    view { w with samples := samples, taken := taken, updates := updates, reports := reports } =
      view w

section

variable (hview : NotSampled view)
include hview

theorem keeps_readBatch (o : Option External) (samples : ℕ → Double) :
    Prog.Keeps view (Pio.readBatch o samples) :=
  Prog.Keeps.bind (keeps_attempt _) fun _ => .modify fun w => hview w samples w.taken w.updates w.reports

theorem keeps_writeReport (o : Option External) :
    Prog.Keeps view (writeReport o) := by
  refine Prog.Keeps.bind (keeps_attempt _) fun _ => .modify fun w => ?_
  split_ifs
  · rfl
  · exact hview w w.samples w.taken w.updates _

theorem keeps_closeReport {idx : ℕ} {t : Tick} :
    Prog.Keeps view (closeReport args idx t) := by
  have hreset : Prog.Keeps view (resetStats t.resetFails) :=
    Prog.Keeps.bind (keeps_attempt _) fun _ => .modify fun w => hview w w.samples w.taken [] w.reports
  refine Prog.Keeps.bind (keeps_ofExcept _ _) fun due => .ite ?_ (.pure ())
  exact .bind (keeps_writeReport hview _) fun _ => hreset

/-- An iteration keeps what its agent keeps. -/
theorem keeps_iteration {idx : ℕ} {t : Tick}
    (hupdate : Prog.Keeps view (agent.updateLoop t)) : Prog.Keeps view (iteration agent args idx t) := by
  have hread : Prog.Keeps view (takeSample idx t) :=
    Prog.Keeps.bind (.ite (keeps_readBatch hview _ _) (.pure ())) fun _ =>
      .modify fun w => hview w w.samples (w.taken + 1) w.updates w.reports
  have hstats : Prog.Keeps view (updateStats idx t.statsFails) :=
    Prog.Keeps.bind (keeps_attempt _) fun _ => .modify fun w => hview w w.samples w.taken _ w.reports
  refine Prog.Keeps.bind hread fun _ => .bind hupdate fun _ => .bind (.ite (keeps_attempt _) (.pure ()))
    fun _ => .bind (.ite hstats (.pure ())) fun _ => .bind (.ite (keeps_ofExcept _ _) (.pure _))
    fun active => ?_
  exact .ite (.bind (keeps_closeReport hview) fun _ => .pure _) (.pure _)

theorem keeps_samplingLoop {num : Option ℤ} {signum : ℤ} {idx : ℕ}
    {ticks : List Tick} (hupdate : ∀ t, Prog.Keeps view (agent.updateLoop t)) :
    Prog.Keeps view (samplingLoop agent args num signum idx ticks) := by
  induction ticks generalizing idx with
  | nil => exact Prog.Keeps.throw _
  | cons t ts ih =>
    exact Prog.Keeps.bind (.ite (keeps_attempt _) (.pure ())) fun _ =>
      .bind (keeps_iteration hview (hupdate t)) fun _ => .ite ih (.pure ())

end

end Keeps

theorem keeps_marks :
    Prog.Keeps World.marks (samplingLoop scripted args num signum idx ticks) :=
  keeps_samplingLoop (fun _ _ _ _ _ => rfl) fun _ =>
    Prog.Keeps.bind (.modify fun _ => rfl) fun _ => keeps_attempt _

end Session

end Geopm
