import Geopm.Pio.Signals

/-!
# The batch path and the immediate path of the controls

Adjustments that are written in a batch leave the hardware as immediate writes in the same order do,
provided that what has been pushed at the native domain went to the IOGroups that `write_control`
uses.  A push also reads the control, which a write does not, so that this is not always so.

* `Platform.adjusted` : the hardware that `write_batch` would leave;
* `Platform.wp_adjust` : an adjustment changes it as `write_control` changes the hardware;
* `ControlClient.writeBatch_eq_writeControl` : batches are written as the settings one by one;
* `Platform.readBack` : a setting that is written at a coarser domain is read back there.
-/

namespace Geopm.Pio

open Prog
open Function (update update_self update_of_ne)
open List hiding set

variable {S H : Type} {p : Platform S H} {v : Value}

namespace Platform

open PlatformIOImp

variable {s s' : PlatformIOImp S H} {t : Request} {i : ℤ}

/-! ### The immediate path -/

/-- The hardware after a write at the native domain. -/
def nativeWrite (p : Platform S H) (t : Request) (v : Value) (hardware : ℕ → H) : ℕ → H :=
  (p.server .control t).elim hardware fun g =>
    update hardware g.2 (g.1.write t v (hardware g.2))

/-- What is written at the native domain for a setting at a coarser one. -/
def share (p : Platform S H) (t : Request) (v : Value) : Value :=
  if p.nested .control t ≠ [] ∧ ¬ p.isControlAdjustSame t.name then
    v.map fun v => v / ((p.nested .control t).length : ℚ)
  else v

/-- The hardware after a write at a coarser domain. -/
def nestedWrite (p : Platform S H) (t : Request) (v : Value) (hardware : ℕ → H) : ℕ → H :=
  (p.nested .control t).foldl (fun hw u => p.nativeWrite u (p.share t v) hw) hardware

/-- `write_control` takes the first IOGroup that does not raise. -/
theorem writeLoop_server {write : Request → Value → EStateM Exception (ℕ → H) Unit}
    {hardware : ℕ → H} {gs : List (IOGroup S H × ℕ)} {g : IOGroup S H × ℕ} {errs : List Exception}
    (hdomain : ∀ g' ∈ gs, domainTypeOf .control t.name g'.1 = t.domainType)
    (hg : (gs.find? fun g => (g.1.methodError .control t).isNone) = some g) :
    p.writeLoop write t v gs errs hardware =
      .ok ⟨⟩ (update hardware g.2 (g.1.write t v (hardware g.2))) := by
  induction gs generalizing errs with
  | nil => cases hg
  | cons g' gs ih =>
    rw [writeLoop, if_neg (not_not.mpr (hdomain g' mem_cons_self))]
    rw [bind_of_ok (rfl : (get : EStateM Exception (ℕ → H) (ℕ → H)) hardware = .ok hardware hardware),
      IOGroup.writeControl]
    rw [find?_cons] at hg
    cases herr : g'.1.writeError t with
    | none =>
      have hself : (g'.1.methodError .control t).isNone = true := by
        change (g'.1.writeError t).isNone = true
        rw [herr]
        rfl
      rw [hself] at hg
      rw [← Option.some.inj hg]
      rfl
    | some e =>
      have hself : (g'.1.methodError .control t).isNone = false := by
        change (g'.1.writeError t).isNone = false
        rw [herr]
        rfl
      rw [hself] at hg
      exact ih (fun g hmem => hdomain g (mem_cons_of_mem _ hmem)) hg

variable (hardware : ℕ → H)

theorem writeControl_native {g : IOGroup S H × ℕ} (hrange : p.InRange t)
    (hnative : t.domainType = p.nativeDomain .control t.name)
    (hserver : p.server .control t = some g) :
    p.writeControl t v hardware = .ok ⟨⟩ (p.nativeWrite t v hardware) := by
  have hmem := (mem_findIogroup_of_server hserver).1
  rw [writeControl_eq, writeControlWith, checkRange_of_inRange hrange]
  change (if p.findIogroup .control t.name = [] then _ else _ : EStateM Exception (ℕ → H) Unit)
    hardware = _
  rw [if_neg (ne_nil_of_mem hmem), writeLoop_server (fun g' hg' => ?_) hserver, nativeWrite,
    hserver]
  · rfl
  · rw [(mem_findIogroup hg').2.2, hnative]

theorem writeControl_convert (hrange : p.InRange t)
    (hconvert : t.domainType ≠ p.nativeDomain .control t.name)
    (hfound : p.findIogroup .control t.name ≠ [])
    (hnested : p.topo.isNestedDomain (p.nativeDomain .control t.name) t.domainType = true) :
    p.writeControl t v hardware =
      (p.nested .control t).forM (fun u => p.writeControl u (p.share t v)) hardware := by
  rw [writeControl_eq, writeControlWith, checkRange_of_inRange hrange]
  change (if p.findIogroup .control t.name = [] then _ else _ : EStateM Exception (ℕ → H) Unit)
    hardware = _
  rw [if_neg hfound]
  cases hgs : p.findIogroup .control t.name with
  | nil => exact absurd hgs hfound
  | cons g gs =>
    have hg : g ∈ p.findIogroup .control t.name := hgs ▸ mem_cons_self
    rw [writeLoop, if_pos ((mem_findIogroup hg).2.2.trans_ne hconvert.symm), writeConvertDomain,
      if_pos hnested]
    rfl

theorem writeControl_combined {ops : List ℤ} {c : ℚ}
    (h : p.CombinedEntry .control s t i ops c) :
    p.writeControl t v hardware = .ok ⟨⟩ (p.nestedWrite t v hardware) := by
  rw [writeControl_convert hardware h.inRange h.convert h.found h.isNested]
  refine forM_eq_ok ?_
  refine ((forall₂_and_left _ _).mp (h.operands.imp fun u j hentry => ⟨?_, hentry⟩)).1
  obtain ⟨g, k, gi, hentry⟩ := hentry
  exact fun hw => writeControl_native hw hentry.inRange hentry.native hentry.server

/-! ### The batch path -/

/-- The hardware that `write_batch` would leave. -/
def adjusted (p : Platform S H) (s : PlatformIOImp S H) : ℕ → H := (p.writeBatch s).hardware

theorem adjusted_eq {g : IOGroup S H} {k : ℕ} (hg : p.iogroupList[k]? = some g) :
    p.adjusted s k =
      (g.pending (s.groupState k)).foldl (fun h tv => g.write tv.1 tv.2 h) (s.hardware k) := by
  unfold adjusted writeBatch
  dsimp only
  rw [hg]
  exact g.writeBatch_spec _ _

variable (p) in
/-- What an adjustment leaves as it is. -/
structure Adjusted (s s' : PlatformIOImp S H) : Prop where
  table : s'.table = s.table
  names : s'.pushedSignalNames = s.pushedSignalNames
  groups : ∀ (k : ℕ) (g : IOGroup S H), p.iogroupList[k]? = some g →
    ∀ t i, g.isPushed .control (s.groupState k) t i → g.isPushed .control (s'.groupState k) t i
  hardware : s'.hardware = s.hardware

theorem Adjusted.refl (s : PlatformIOImp S H) : p.Adjusted s s :=
  ⟨rfl, rfl, fun _ _ _ _ _ h => h, rfl⟩

theorem Adjusted.trans {s'' : PlatformIOImp S H} (h : p.Adjusted s s') (h' : p.Adjusted s' s'') :
    p.Adjusted s s'' :=
  ⟨h'.table.trans h.table, h'.names.trans h.names,
    fun k g hg t i ht => h'.groups k g hg t i (h.groups k g hg t i ht),
    h'.hardware.trans h.hardware⟩

theorem Adjusted.upgrade (h : p.Adjusted s s') : Upgrade p .control s s' where
  active := h.table ▸ prefix_rfl
  combined _ _ := by rw [h.table]
  groups := h.groups
  names _ hname := by rw [h.names]; exact hname

variable (depth : ℕ)

/-- An adjustment of what the index of a native control stands for. -/
theorem wp_adjustFrom_native {g : IOGroup S H} {k : ℕ} {gi : ℤ} (q : ℚ)
    (h : p.NativeEntry .control s t i g k gi) :
    wp (p.adjustFrom (depth + 1) i (some q))
      (fun _ s' => p.Adjusted s s' ∧ p.adjusted s' = p.nativeWrite t (some q) (p.adjusted s))
      (fun _ _ => False) s := by
  obtain ⟨hmem, herror⟩ := mem_findIogroup_of_server h.server
  have hg := (mem_findIogroup hmem).1
  have hlt := (List.getElem?_eq_some_iff.mp h.active).1
  have hnonneg := h.nonneg
  unfold adjustFrom
  rw [wp_bind, wp_get, if_neg (by omega), if_neg (Option.some_ne_none q), h.active]
  dsimp only
  rw [hg]
  dsimp only [onGroup]
  rw [wp_bind, wp_zoom]
  refine wp_mono (g.adjust_spec t gi (some q) (s.groupState k) h.pushed herror) ?_ fun _ _ h => h
  rintro ⟨⟩ gs ⟨hpushed, hpending⟩
  rw [wp_modify]
  have hupdate : ∀ (k' : ℕ) (g' : IOGroup S H), p.iogroupList[k']? = some g' →
      ∀ t i, g'.isPushed .control (s.groupState k') t i →
        g'.isPushed .control (update s.groupState k gs k') t i := by
    intro k' g' hg' u j hu
    by_cases hk : k' = k
    · subst hk
      rw [hg] at hg'
      cases hg'
      rw [update_self]
      exact hpushed u j hu
    · rw [update_of_ne hk]
      exact hu
  refine ⟨⟨rfl, rfl, hupdate, rfl⟩, ?_⟩
  funext k'
  rw [nativeWrite, h.server]
  change _ = update (p.adjusted s) k (g.write t (some q) (p.adjusted s k)) k'
  by_cases hk : k' = k
  · subst hk
    rw [update_self, adjusted_eq hg, adjusted_eq hg]
    dsimp only
    rw [update_self, hpending, List.foldl_append]
    rfl
  · rw [update_of_ne hk]
    unfold adjusted writeBatch
    dsimp only
    rw [update_of_ne hk]

theorem wp_forM_adjust (q : ℚ) {us : List Request} {ops : List ℤ}
    (h : List.Forall₂ (fun u j => ∃ g k gi, p.NativeEntry .control s u j g k gi) us ops) :
    wp (ops.forM fun op => p.adjustFrom (depth + 1) op (some q))
      (fun _ s' => p.Adjusted s s' ∧
        p.adjusted s' = us.foldl (fun hw u => p.nativeWrite u (some q) hw) (p.adjusted s))
      (fun _ _ => False) s := by
  induction us generalizing ops s with
  | nil =>
    rw [forall₂_nil_left_iff.mp h]
    exact ⟨.refl s, rfl⟩
  | cons u us ih =>
    obtain ⟨j, ops, ⟨g, k, gi, hentry⟩, hrest, rfl⟩ := forall₂_cons_left_iff.mp h
    change wp (p.adjustFrom (depth + 1) j (some q) >>= fun _ => ops.forM _) _ _ _
    rw [wp_bind]
    refine wp_mono (wp_adjustFrom_native depth q hentry) ?_ fun _ _ h => h
    rintro ⟨⟩ s₁ ⟨h₁, hadjusted⟩
    have hrest₁ : List.Forall₂ (fun u j => ∃ g k gi, p.NativeEntry .control s₁ u j g k gi) us ops :=
      hrest.imp fun _ _ ⟨g, k, gi, hentry⟩ => ⟨g, k, gi, hentry.upgrade h₁.upgrade⟩
    refine wp_mono (ih hrest₁) ?_ fun _ _ h => h
    rintro ⟨⟩ s₂ ⟨h₂, hadjusted₂⟩
    refine ⟨h₁.trans h₂, ?_⟩
    rw [hadjusted₂, hadjusted]
    rfl

theorem scale_eq_share {n : ℕ} {c : ℚ} (q : ℚ) (hn : n = (p.nested .control t).length)
    (hc : p.combiner t.name n .control = .ok c) : scale c (some q) = p.share t (some q) := by
  have hfactor : (if n ≠ 0 ∧ ¬ p.isControlAdjustSame t.name then 1 / (n : ℚ) else (1 : ℚ)) = c :=
    Except.ok.inj hc
  have hempty : n ≠ 0 ↔ p.nested .control t ≠ [] := by
    rw [hn]
    exact not_congr length_eq_zero_iff
  unfold scale share
  rw [← hfactor, Option.map_some]
  by_cases h : n ≠ 0 ∧ ¬ p.isControlAdjustSame t.name
  · rw [if_pos h, if_pos ⟨hempty.mp h.1, h.2⟩, Option.map_some, ← hn, one_div_mul_eq_div]
  · rw [if_neg h, if_neg fun h' => h ⟨hempty.mpr h'.1, h'.2⟩, one_mul]

theorem wp_adjustFrom_combined {ops : List ℤ} {c : ℚ} (q : ℚ)
    (h : p.CombinedEntry .control s t i ops c) :
    wp (p.adjustFrom (depth + 2) i (some q))
      (fun _ s' => p.Adjusted s s' ∧ p.adjusted s' = p.nestedWrite t (some q) (p.adjusted s))
      (fun _ _ => False) s := by
  have hlt := (List.getElem?_eq_some_iff.mp h.active).1
  have hnonneg := h.nonneg
  have hlength := h.operands.length_eq
  obtain ⟨q', hq'⟩ : ∃ q', scale c (some q) = some q' := ⟨c * q, rfl⟩
  have hshare : p.share t (some q) = some q' :=
    (scale_eq_share q hlength.symm h.combiner).symm.trans hq'
  unfold adjustFrom
  rw [wp_bind, wp_get, if_neg (by omega), if_neg (Option.some_ne_none q), h.active]
  dsimp only
  rw [h.combined]
  dsimp only
  rw [wp_bind]
  change wp (ops.forM fun op => p.adjustFrom (depth + 1) op (scale c (some q))) _ _ _
  rw [hq']
  refine wp_mono (wp_forM_adjust depth q' h.operands) ?_ fun _ _ h => h
  rintro ⟨⟩ s₁ ⟨h₁, hadjusted⟩
  rw [wp_modify]
  refine ⟨⟨h₁.table, h₁.names, h₁.groups, h₁.hardware⟩, ?_⟩
  unfold nestedWrite
  rw [hshare]
  exact hadjusted

/-- **An adjustment changes what `write_batch` would leave as `write_control` changes the
hardware.** -/
theorem wp_adjust (q : ℚ) (hinv : p.Inv .control s) (h : Live .control s t i) :
    ∃ s', p.adjust i (some q) s = .ok ⟨⟩ s' ∧ p.Adjusted s s' ∧
      p.writeControl t (some q) (p.adjusted s) = .ok ⟨⟩ (p.adjusted s') := by
  obtain ⟨g, k, gi, h⟩ | ⟨ops, c, h⟩ := hinv t i h
  · obtain ⟨_, s', hrun, hs', hadjusted⟩ := exists_ok_of_wp (wp_adjustFrom_native _ q h)
    refine ⟨s', hrun, hs', ?_⟩
    rw [hadjusted]
    exact writeControl_native _ h.inRange h.native h.server
  · have hlt := (List.getElem?_eq_some_iff.mp h.active).1
    obtain ⟨n, hn⟩ := Nat.exists_eq_add_of_lt hlt
    obtain ⟨_, s', hrun, hs', hadjusted⟩ :=
      exists_ok_of_wp (wp_adjustFrom_combined (i.toNat + n) q h)
    have hdepth : (s.table .control).active.length + 1 = i.toNat + n + 2 := congrArg (· + 1) hn
    refine ⟨s', ?_, hs', ?_⟩
    · rw [← hrun, ← hdepth]
      rfl
    · rw [hadjusted]
      exact writeControl_combined _ h

end Platform

/-! ### Reading a setting back -/

namespace Agg

/-- The aggregations that give what all of their operands are. -/
def idempotent : List Agg := [average, median, min, max, expectSame]

theorem sum_replicate (n : ℕ) (x : ℚ) :
    sum.apply (List.replicate (n + 1) (some x)) = some ((n + 1 : ℕ) * x) := by
  refine (filtered_replicate _ n x).trans ?_
  rw [List.sum_replicate, nsmul_eq_mul]

theorem average_replicate (n : ℕ) (x : ℚ) :
    average.apply (List.replicate (n + 1) (some x)) = some x := by
  refine (filtered_replicate (fun operand => operand.sum / operand.length) n x).trans ?_
  rw [List.sum_replicate, nsmul_eq_mul, length_replicate,
    mul_div_cancel_left₀ x (Nat.cast_ne_zero.mpr n.succ_ne_zero)]

theorem foldl_replicate {f : ℚ → ℚ → ℚ} (hf : ∀ x, f x x = x) (n : ℕ) (x : ℚ) :
    (List.replicate n x).foldl f x = x := by
  induction n with
  | zero => rfl
  | succ n ih => rw [replicate_succ, foldl_cons, hf, ih]

theorem expectSame_replicate (n : ℕ) (x : ℚ) :
    expectSame.apply (List.replicate (n + 1) (some x)) = some x := by
  unfold expectSame
  dsimp only
  rw [nanFilter_replicate, replicate_succ]
  have hall : (List.replicate n x).all (· == x) = true :=
    all_eq_true.mpr fun y hy => beq_iff_eq.mpr (eq_of_mem_replicate hy)
  exact if_pos hall

theorem idempotent_replicate {agg : Agg} (h : agg ∈ idempotent) (n : ℕ) (x : ℚ) :
    agg.apply (List.replicate (n + 1) (some x)) = some x := by
  unfold idempotent at h
  simp only [mem_cons, not_mem_nil, or_false] at h
  obtain rfl | rfl | rfl | rfl | rfl := h
  · exact average_replicate n x
  · exact median_replicate n x
  · refine (filtered_replicate _ n x).trans ?_
    exact congrArg some (foldl_replicate min_self (n + 1) x)
  · refine (filtered_replicate _ n x).trans ?_
    exact congrArg some (foldl_replicate max_self (n + 1) x)
  · exact expectSame_replicate n x

end Agg

/-- The IOGroup reads the setting of a control that was written last. -/
def IOGroup.HasSettings {S H : Type} (g : IOGroup S H) : Prop :=
  ∀ t v h u, g.value u (g.write t v h) = if u = t then v else g.value u h

namespace Platform

variable {t u : Request}

/-- The setting of a native control. -/
def setting (p : Platform S H) (hardware : ℕ → H) (t : Request) : Value :=
  (p.server .control t).elim none fun g => g.1.value t (hardware g.2)

variable {hardware : ℕ → H}

theorem wp_writeLoop_native {write : Request → Value → EStateM Exception (ℕ → H) Unit}
    {gs : List (IOGroup S H × ℕ)} {errs : List Exception}
    (hdomain : ∀ g' ∈ gs, domainTypeOf .control t.name g'.1 = t.domainType) :
    wp (p.writeLoop write t v gs errs)
      (fun _ hardware' => ∃ g, (gs.find? fun g => (g.1.methodError .control t).isNone) = some g ∧
        hardware' = update hardware g.2 (g.1.write t v (hardware g.2)))
      (fun _ _ => True) hardware := by
  cases hfind : gs.find? fun g => (g.1.methodError .control t).isNone with
  | some g => exact wp_of_ok (writeLoop_server hdomain hfind) ⟨g, rfl, rfl⟩
  | none =>
    induction gs generalizing errs with
    | nil => exact trivial
    | cons g gs ih =>
      rw [find?_cons] at hfind
      rw [writeLoop, if_neg (not_not.mpr (hdomain g mem_cons_self)), wp_bind, wp_get]
      unfold IOGroup.writeControl
      cases herr : g.1.writeError t with
      | none =>
        have hself : (g.1.methodError .control t).isNone = true := by
          change (g.1.writeError t).isNone = true
          rw [herr]
          rfl
        rw [hself] at hfind
        cases hfind
      | some e =>
        have hself : (g.1.methodError .control t).isNone = false := by
          change (g.1.writeError t).isNone = false
          rw [herr]
          rfl
        rw [hself] at hfind
        exact ih (fun g' hg' => hdomain g' (mem_cons_of_mem _ hg')) hfind

/-- What is written at the native domain is written by the IOGroup of `write_control`. -/
theorem wp_writeControl_native
    (hnative : t.domainType = p.nativeDomain .control t.name) :
    wp (p.writeControl t v)
      (fun _ hardware' => hardware' = p.nativeWrite t v hardware ∧ p.InRange t ∧
        ∃ g, p.server .control t = some g)
      (fun _ _ => True) hardware := by
  rw [writeControl_eq, writeControlWith, wp_bind]
  refine wp_checkRange (fun hrange => ?_) fun _ => trivial
  rw [wp_ite]
  refine ⟨fun _ => trivial, fun _ => ?_⟩
  refine wp_mono (wp_writeLoop_native fun g hg => ?_) ?_ fun _ _ h => h
  · rw [(mem_findIogroup hg).2.2, hnative]
  · rintro _ hardware' ⟨g, hg, rfl⟩
    have hserver : p.server .control t = some g := hg
    refine ⟨?_, hrange, g, hserver⟩
    rw [nativeWrite, hserver]
    rfl

theorem wp_writeControl_convert
    (hconvert : t.domainType ≠ p.nativeDomain .control t.name) :
    wp (p.writeControl t v)
      (fun _ hardware' => hardware' = p.nestedWrite t v hardware ∧ p.InRange t ∧
        p.topo.isNestedDomain (p.nativeDomain .control t.name) t.domainType = true ∧
        ∀ u ∈ p.nested .control t, p.InRange u ∧ ∃ g, p.server .control u = some g)
      (fun _ _ => True) hardware := by
  rw [writeControl_eq, writeControlWith, wp_bind]
  refine wp_checkRange (fun hrange => ?_) fun _ => trivial
  rw [wp_ite]
  refine ⟨fun _ => trivial, fun hfound => ?_⟩
  cases hgs : p.findIogroup .control t.name with
  | nil => exact absurd hgs hfound
  | cons g gs =>
    have hg : g ∈ p.findIogroup .control t.name := hgs ▸ mem_cons_self
    rw [writeLoop, if_pos ((mem_findIogroup hg).2.2.trans_ne hconvert.symm), writeConvertDomain]
    rw [wp_ite]
    refine ⟨fun hnested => ?_, fun _ => trivial⟩
    change wp ((p.nested .control t).forM fun u => p.writeControl u (p.share t v)) _ _ _
    refine wp_mono (wp_forM_done (I := fun us hw =>
      hw = us.foldl (fun hw u => p.nativeWrite u (p.share t v) hw) hardware ∧
        ∀ u ∈ us, p.InRange u ∧ ∃ g, p.server .control u = some g) (E := fun _ _ => True)
      ⟨rfl, fun u hu => (not_mem_nil hu).elim⟩ ?_) ?_ fun _ _ h => h
    case refine_2 =>
      rintro _ hw ⟨hhw, hservers⟩
      exact ⟨hhw, hrange, hnested, hservers⟩
    rintro pre u post hus hw ⟨rfl, hpre⟩
    have hu : u ∈ p.nested .control t := hus ▸ mem_append_right pre mem_cons_self
    refine wp_mono (wp_writeControl_native (mem_nested hu).2) ?_ fun _ _ h => h
    rintro _ hw' ⟨rfl, hserver⟩
    refine ⟨?_, fun u' hu' => ?_⟩
    · rw [List.foldl_append]
      rfl
    · obtain hu' | hu' := mem_append.mp hu'
      · exact hpre u' hu'
      · exact mem_singleton.mp hu' ▸ hserver

theorem setting_nativeWrite (hsettings : ∀ g ∈ p.iogroupList, g.HasSettings)
    (ht : ∃ g, p.server .control t = some g) (u : Request) :
    p.setting (p.nativeWrite t v hardware) u = if u = t then v else p.setting hardware u := by
  obtain ⟨⟨g, k⟩, hg⟩ := ht
  have hk := (mem_findIogroup (mem_findIogroup_of_server hg).1).1
  have hlaw := hsettings g (mem_of_getElem? hk)
  unfold setting nativeWrite
  rw [hg]
  dsimp only [Option.elim]
  by_cases hu : u = t
  · subst hu
    rw [hg, if_pos rfl]
    dsimp only
    rw [update_self, hlaw, if_pos rfl]
  · rw [if_neg hu]
    cases hu' : p.server .control u with
    | none => rfl
    | some g' =>
      dsimp only
      by_cases hsame : g'.2 = k
      · have hget := (mem_findIogroup (mem_findIogroup_of_server hu').1).1
        rw [hsame, hk] at hget
        rw [hsame, update_self, ← Option.some.inj hget, hlaw, if_neg hu]
      · rw [update_of_ne hsame]

theorem setting_nestedWrite (hsettings : ∀ g ∈ p.iogroupList, g.HasSettings)
    (hserver : ∀ u ∈ p.nested .control t, ∃ g, p.server .control u = some g) :
    ∀ u ∈ p.nested .control t, p.setting (p.nestedWrite t v hardware) u = p.share t v := by
  suffices h : ∀ (us : List Request), (∀ u ∈ us, ∃ g, p.server .control u = some g) →
      ∀ hw u, p.setting (us.foldl (fun hw u => p.nativeWrite u (p.share t v) hw) hw) u =
        if u ∈ us then p.share t v else p.setting hw u from
    fun u hu => (h _ hserver hardware u).trans (if_pos hu)
  intro us
  induction us with
  | nil => exact fun _ hw u => (if_neg not_mem_nil).symm
  | cons u' us ih =>
    intro hservers hw u
    rw [foldl_cons, ih (fun u hu => hservers u (mem_cons_of_mem _ hu)),
      setting_nativeWrite hsettings (hservers u' mem_cons_self)]
    by_cases hu : u ∈ us
    · rw [if_pos hu, if_pos (mem_cons_of_mem _ hu)]
    · by_cases heq : u = u'
      · rw [if_neg hu, if_pos heq, if_pos (heq ▸ mem_cons_self)]
      · rw [if_neg hu, if_neg heq, if_neg fun h => (mem_cons.mp h).elim heq hu]

/-- The aggregation of a control, that of the last registered IOGroup. -/
def controlAgg (p : Platform S H) (name : String) : Option Agg :=
  (p.findIogroup .control name).head?.map fun g => g.1.aggFunction name

/-- The share of a setting in a domain, aggregated over the domain, is the setting. -/
theorem apply_share {agg : Agg} (hagg : p.controlAgg t.name = some agg)
    (hmem : agg ∈ Agg.sum :: Agg.idempotent) (hne : p.nested .control t ≠ []) (q : ℚ) :
    agg.apply ((p.nested .control t).map fun _ => p.share t (some q)) = some q := by
  have hsame : p.isControlAdjustSame t.name = decide (agg.type ≠ .sum) := by
    unfold controlAgg at hagg
    unfold isControlAdjustSame
    cases hgs : p.findIogroup .control t.name with
    | nil => rw [hgs] at hagg; cases hagg
    | cons g gs =>
      rw [hgs] at hagg
      rw [← Option.some.inj hagg]
  obtain ⟨u, us, hus⟩ := exists_cons_of_ne_nil hne
  have hlength : (p.nested .control t).length = us.length + 1 := congrArg List.length hus
  unfold share
  rw [map_const', hlength, hsame]
  obtain rfl | hmem := mem_cons.mp hmem
  · have hsum : ¬ decide (Agg.sum.type ≠ .sum) = true := by decide
    rw [if_pos ⟨hne, hsum⟩, Option.map_some, Agg.sum_replicate,
      mul_div_cancel₀ q (Nat.cast_ne_zero.mpr us.length.succ_ne_zero)]
  · have htype : decide (agg.type ≠ .sum) = true := by
      unfold Agg.idempotent at hmem
      simp only [mem_cons, not_mem_nil, or_false] at hmem
      obtain rfl | rfl | rfl | rfl | rfl := hmem <;> decide
    rw [if_neg fun h => h.2 htype]
    exact Agg.idempotent_replicate hmem us.length q

/-- The control is a signal, which is read from the IOGroups that the control is written to. -/
structure IsSignal (p : Platform S H) (t : Request) : Prop where
  found : p.findIogroup .signal t.name ≠ []
  domain : p.nativeDomain .signal t.name = p.nativeDomain .control t.name
  agg : (p.aggFunction t.name).toOption = p.controlAgg t.name
  server : ∀ u ∈ p.nested .control t, p.server .signal u = p.server .control u

/-- **A setting that has been written at a coarser domain is read back at that domain.** -/
theorem readBack (hsettings : ∀ g ∈ p.iogroupList, g.HasSettings) {hardware hardware' : ℕ → H}
    {q : ℚ} {agg : Agg} (hconvert : t.domainType ≠ p.nativeDomain .control t.name)
    (hne : p.nested .control t ≠ []) (hagg : p.controlAgg t.name = some agg)
    (hmem : agg ∈ Agg.sum :: Agg.idempotent)
    (hwrite : p.writeControl t (some q) hardware = .ok ⟨⟩ hardware') :
    agg.apply ((p.nested .control t).map (p.setting hardware')) = some q ∧
      (p.IsSignal t → p.readSignal hardware' t = .ok (some q)) := by
  have hwp : wp (p.writeControl t (some q)) _ _ hardware := wp_writeControl_convert hconvert
  unfold wp at hwp
  rw [hwrite] at hwp
  obtain ⟨rfl, hrange, hnested, hservers⟩ := hwp
  have hshare : ∀ u ∈ p.nested .control t,
      p.setting (p.nestedWrite t (some q) hardware) u = p.share t (some q) :=
    setting_nestedWrite hsettings fun u hu => (hservers u hu).2
  have hvalue : agg.apply ((p.nested .control t).map (p.setting
      (p.nestedWrite t (some q) hardware))) = some q := by
    rw [map_congr_left hshare]
    exact apply_share hagg hmem hne q
  refine ⟨hvalue, fun h => ?_⟩
  have hsame : p.nested .signal t = p.nested .control t := by
    unfold nested
    rw [h.domain]
  have hc : p.aggFunction t.name = .ok agg := by
    have hopt := h.agg.trans hagg
    cases hfun : p.aggFunction t.name with
    | error e => rw [hfun] at hopt; cases hopt
    | ok c => rw [hfun] at hopt; exact congrArg _ (Option.some.inj hopt)
  have hvalues : (p.nested .control t).map (p.nativeValue (p.nestedWrite t (some q) hardware)) =
      (p.nested .control t).map (p.setting (p.nestedWrite t (some q) hardware)) := by
    refine map_congr_left fun u hu => ?_
    unfold nativeValue setting
    rw [h.server u hu]
  rw [readSignal_convert _ hrange (h.domain ▸ hconvert) h.found (h.domain ▸ hnested) hc, hsame,
    hvalues, hvalue]
  intro u hu
  rw [hsame] at hu
  rw [h.server u hu]
  exact hservers u hu

end Platform

namespace Client

open Platform

/-- Adjust the indices, in their order. -/
def adjustAll (p : Platform S H) (settings : List (Request × ℤ × ℚ)) :
    PlatformIOImp.Method S H Unit :=
  settings.forM fun e => p.adjust e.2.1 (some e.2.2)

/-- Write the controls, in their order. -/
def writeAll (p : Platform S H) (settings : List (Request × ℤ × ℚ)) :
    EStateM Exception (ℕ → H) Unit :=
  settings.forM fun e => p.writeControl e.1 (some e.2.2)

/-- Adjustments change what `write_batch` would leave as immediate writes change the hardware. -/
theorem adjustAll_eq {p : Platform S H} {s : PlatformIOImp S H} (hinv : p.Inv .control s)
    {settings : List (Request × ℤ × ℚ)} (hlive : ∀ e ∈ settings, Live .control s e.1 e.2.1) :
    ∃ s', adjustAll p settings s = .ok ⟨⟩ s' ∧
      writeAll p settings (p.adjusted s) = .ok ⟨⟩ (p.adjusted s') := by
  induction settings generalizing s with
  | nil => exact ⟨s, rfl, rfl⟩
  | cons e settings ih =>
    obtain ⟨s₁, hadjust, hs₁, hwrite⟩ := wp_adjust e.2.2 hinv (hlive e mem_cons_self)
    have hlive₁ : ∀ t i, Live .control s t i ↔ Live .control s₁ t i := by
      intro t i
      unfold Live
      rw [hs₁.table]
    have hinv₁ : p.Inv .control s₁ := fun t i ht =>
      (hinv t i ((hlive₁ t i).mpr ht)).upgrade hs₁.upgrade
    obtain ⟨s₂, hadjust₂, hwrite₂⟩ := ih hinv₁ fun e' he' =>
      (hlive₁ _ _).mp (hlive e' (mem_cons_of_mem _ he'))
    refine ⟨s₂, ?_, ?_⟩
    · change EStateM.bind (p.adjust e.2.1 (some e.2.2)) (fun _ => adjustAll p settings) s = _
      unfold EStateM.bind
      rw [hadjust]
      exact hadjust₂
    · change EStateM.bind (p.writeControl e.1 (some e.2.2)) (fun _ => writeAll p settings) _ = _
      unfold EStateM.bind
      rw [hwrite]
      exact hwrite₂

/-- **Batches are written as the settings one by one**, in every run whose pushes are routed to the
IOGroups that `write_control` uses, and a setting that is written at a coarser domain is read back
there. -/
theorem writeBatch_eq_writeControl (p : Platform S H) (groupState : ℕ → S) (hardware : ℕ → H)
    (hpending : ∀ (k : ℕ) (g : IOGroup S H), p.iogroupList[k]? = some g →
      g.pending (groupState k) = []) {x : Client S H}
    (h : (Lts.ofFun (next p .control)).ReachableIf (Routed p .control)
      (start groupState hardware) x) :
    (∀ settings : List (Request × ℤ × ℚ), (∀ e ∈ settings, (e.1, e.2.1) ∈ x.pushed) →
      ∃ s', adjustAll p settings x.pio = .ok ⟨⟩ s' ∧
        writeAll p settings x.pio.hardware = .ok ⟨⟩ (p.writeBatch s').hardware) ∧
    ((∀ g ∈ p.iogroupList, g.HasSettings) →
      ∀ t q agg hw hw', t.domainType ≠ p.nativeDomain .control t.name →
        p.nested .control t ≠ [] → p.controlAgg t.name = some agg →
        agg ∈ Agg.sum :: Agg.idempotent → p.writeControl t (some q) hw = .ok ⟨⟩ hw' →
          agg.apply ((p.nested .control t).map (p.setting hw')) = some q ∧
            (p.IsSignal t → p.readSignal hw' t = .ok (some q))) := by
  have hinv := inv_of_reachable h
  refine ⟨fun settings hs => ?_, fun hsettings t q agg hw hw' hconvert hne hagg hmem hwrite =>
    readBack hsettings hconvert hne hagg hmem hwrite⟩
  obtain ⟨s', hadjust, hwrite⟩ := adjustAll_eq hinv.pio
    fun e (he : e ∈ settings) => hinv.pushed _ _ (hs e he)
  have hstart : p.adjusted x.pio = x.pio.hardware := by
    funext k
    cases hk : p.iogroupList[k]? with
    | none =>
      unfold adjusted writeBatch
      dsimp only
      rw [hk]
    | some g =>
      have hnone : g.pending (x.pio.groupState k) = [] :=
        (hinv.groups k g hk).2.2.trans (hpending k g hk)
      rw [adjusted_eq hk, hnone]
      rfl
  rw [hstart] at hwrite
  exact ⟨s', hadjust, hwrite⟩

/-- The limit of the board, then that of one of its packages, and the limit of the board alone. -/
theorem writeBatch_eq_writeControl_board :
    (∃ s', adjustAll (fallbackPlatform []) [(boardPowerLimit, 2, 100), (powerLimit 1, 1, 30)]
        (afterPushes .control [] [boardPowerLimit, powerLimit 1]).pio = .ok ⟨⟩ s' ∧
      writeAll (fallbackPlatform []) [(boardPowerLimit, 2, 100), (powerLimit 1, 1, 30)]
        (afterPushes .control [] [boardPowerLimit, powerLimit 1]).pio.hardware =
          .ok ⟨⟩ ((fallbackPlatform []).writeBatch s').hardware) ∧
    Agg.sum.apply (((fallbackPlatform []).nested .control boardPowerLimit).map
      ((fallbackPlatform []).setting
        ((fallbackPlatform []).nestedWrite boardPowerLimit (some 100) registers))) = some 100 := by
  have hpending : ∀ (k : ℕ) (g : IOGroup IOGroup.Slots (Request → Value)),
      (fallbackPlatform []).iogroupList[k]? = some g → g.pending {} = [] := by
    intro k g hg
    have hmem := mem_of_getElem? hg
    simp only [fallbackPlatform, mem_cons, not_mem_nil, or_false] at hmem
    obtain rfl | rfl := hmem <;> rfl
  have hsettings : ∀ g ∈ (fallbackPlatform []).iogroupList, g.HasSettings := by
    intro g hmem
    simp only [fallbackPlatform, mem_cons, not_mem_nil, or_false] at hmem
    obtain rfl | rfl := hmem <;> exact fun _ _ _ _ => rfl
  have hreach : (Lts.ofFun (next (fallbackPlatform []) .control)).ReachableIf
      (Routed (fallbackPlatform []) .control) (start (fun _ => {}) registers)
      (afterPushes .control [] [boardPowerLimit, powerLimit 1]) := by
    refine Lts.reachableIf_of_along ⟨⟨?_, ?_⟩, ⟨?_, ?_⟩, trivial⟩
    · exact fun _ => ⟨fun g hg => hg, fun _ => ⟨fun g hg => hg, trivial⟩, fun _ => trivial⟩
    · exact fun _ => ⟨fun _ => ⟨fun g hg => hg, trivial⟩, fun _ => trivial⟩
    · exact fun _ => ⟨fun g hg => hg, trivial⟩
    · exact fun _ => trivial
  obtain ⟨hbatch, hread⟩ := writeBatch_eq_writeControl (fallbackPlatform []) (fun _ => {}) registers
    hpending hreach
  refine ⟨hbatch _ fun e he => ?_, ?_⟩
  · simp only [mem_cons, not_mem_nil, or_false] at he
    obtain rfl | rfl := he
    · exact mem_cons_self
    · exact mem_cons_of_mem _ mem_cons_self
  · refine (hread hsettings boardPowerLimit 100 .sum registers _ ?_ ?_ rfl ?_ rfl).1
    · decide
    · exact cons_ne_nil _ _
    · exact mem_cons_self

/-- The latest IOGroup cannot read the limit of the first package, so that it is pushed to the first
IOGroup, but it can write it. -/
theorem writeBatch_ne_writeControl :
    ¬ ∀ x, (Lts.ofFun (next (fallbackPlatform [0]) .control)).Reachable
        (start (fun _ => {}) registers) x →
      ∀ settings : List (Request × ℤ × ℚ), (∀ e ∈ settings, (e.1, e.2.1) ∈ x.pushed) →
        ∃ s', adjustAll (fallbackPlatform [0]) settings x.pio = .ok ⟨⟩ s' ∧
          writeAll (fallbackPlatform [0]) settings x.pio.hardware =
            .ok ⟨⟩ ((fallbackPlatform [0]).writeBatch s').hardware := by
  intro h
  have hreach : (Lts.ofFun (next (fallbackPlatform [0]) .control)).Reachable
      (start (fun _ => {}) registers) (afterPushes .control [0] [powerLimit 0]) :=
    Lts.reachableIf_of_along ⟨trivial, trivial⟩
  obtain ⟨s', hadjust, hwrite⟩ := h _ hreach [(powerLimit 0, 0, 50)] fun e he => by
    rw [mem_singleton] at he
    subst he
    exact mem_cons_self
  have hbatch : ((fallbackPlatform [0]).writeBatch s').hardware 1 (powerLimit 0) = some 1 := by
    rw [← (EStateM.Result.ok.inj hadjust).2]
    rfl
  have himmediate :
      ((fallbackPlatform [0]).writeBatch s').hardware 1 (powerLimit 0) = some 50 := by
    rw [← (EStateM.Result.ok.inj hwrite).2]
    rfl
  have hvalue : some (1 : ℚ) = some 50 := hbatch.symm.trans himmediate
  exact absurd (Option.some.inj hvalue) (by decide)

end Client

end Geopm.Pio
