import Geopm.Pio.Client

/-!
# The batch path and the immediate path of the signals

After `read_batch`, a pushed signal is sampled as it is read, provided that what has been pushed at
the native domain went to the IOGroups that `read_signal` uses.  A name that has been pushed once is
not read again before it is pushed for another index, so that this is not always so.

* `Platform.sample_of_entry` : an index that stands for what `read_signal` does is sampled so;
* `Client.sample_eq_readSignal` : every pushed signal is sampled as it is read, in every run
  whose pushes are routed;
* `Client.sample_ne_readSignal` : a run in which one is not.
-/

namespace Geopm.Pio

open Prog
open List

namespace Platform

open PlatformIOImp

variable {S H : Type} {p : Platform S H} {s s' : PlatformIOImp S H} {t : Request} {i : ℤ}

/-! ### The immediate path -/

/-- The value that the IOGroup of `read_signal` reads at the native domain. -/
def nativeValue (p : Platform S H) (hardware : ℕ → H) (t : Request) : Value :=
  (p.server .signal t).elim none fun g => g.1.value t (hardware g.2)

/-- `read_signal` takes the first IOGroup that does not raise. -/
theorem readLoop_server {read : Request → Except Exception Value} {hardware : ℕ → H}
    {gs : List (IOGroup S H × ℕ)} {g : IOGroup S H × ℕ} {errs : List Exception}
    (hdomain : ∀ g' ∈ gs, domainTypeOf .signal t.name g'.1 = t.domainType)
    (hg : (gs.find? fun g => (g.1.methodError .signal t).isNone) = some g) :
    p.readLoop read hardware t gs errs = .ok (g.1.value t (hardware g.2)) := by
  induction gs generalizing errs with
  | nil => cases hg
  | cons g' gs ih =>
    rw [readLoop, if_neg (not_not.mpr (hdomain g' mem_cons_self))]
    unfold IOGroup.readSignal
    rw [find?_cons] at hg
    cases herr : g'.1.readError t with
    | none =>
      have hself : (g'.1.methodError .signal t).isNone = true := by
        change (g'.1.readError t).isNone = true
        rw [herr]
        rfl
      rw [hself] at hg
      rw [← Option.some.inj hg]
    | some e =>
      have hself : (g'.1.methodError .signal t).isNone = false := by
        change (g'.1.readError t).isNone = false
        rw [herr]
        rfl
      rw [hself] at hg
      exact ih (fun g hmem => hdomain g (mem_cons_of_mem _ hmem)) hg

variable (hardware : ℕ → H)

theorem readSignal_native {g : IOGroup S H × ℕ} (hrange : p.InRange t)
    (hnative : t.domainType = p.nativeDomain .signal t.name)
    (hserver : p.server .signal t = some g) :
    p.readSignal hardware t = .ok (p.nativeValue hardware t) := by
  have hmem := (mem_findIogroup_of_server hserver).1
  rw [readSignal_eq, readSignalWith, checkRange_of_inRange hrange]
  change (if p.findIogroup .signal t.name = [] then _ else _) = _
  rw [if_neg (ne_nil_of_mem hmem), readLoop_server (fun g' hg' => ?_) hserver, nativeValue,
    hserver]
  · rfl
  · rw [(mem_findIogroup hg').2.2, hnative]

theorem readSignal_convert {c : Agg} (hrange : p.InRange t)
    (hconvert : t.domainType ≠ p.nativeDomain .signal t.name)
    (hfound : p.findIogroup .signal t.name ≠ [])
    (hnested : p.topo.isNestedDomain (p.nativeDomain .signal t.name) t.domainType = true)
    (hc : p.aggFunction t.name = .ok c)
    (hservers : ∀ u ∈ p.nested .signal t, p.InRange u ∧ ∃ g, p.server .signal u = some g) :
    p.readSignal hardware t = .ok (c.apply ((p.nested .signal t).map (p.nativeValue hardware))) := by
  have hvalues : (p.nested .signal t).mapM (p.readSignal hardware) =
      .ok ((p.nested .signal t).map (p.nativeValue hardware)) := by
    rw [mapM_eq_ok, forall₂_map_right_iff, forall₂_same]
    intro u hu
    obtain ⟨hrange_u, g, hserver⟩ := hservers u hu
    exact readSignal_native hardware hrange_u (mem_nested hu).2 hserver
  rw [readSignal_eq, readSignalWith, checkRange_of_inRange hrange]
  change (if p.findIogroup .signal t.name = [] then _ else _) = _
  rw [if_neg hfound]
  cases hgs : p.findIogroup .signal t.name with
  | nil => exact absurd hgs hfound
  | cons g gs =>
    have hg : g ∈ p.findIogroup .signal t.name := hgs ▸ mem_cons_self
    rw [readLoop, if_pos ((mem_findIogroup hg).2.2.trans_ne hconvert.symm), readConvertDomain,
      if_pos hnested, hvalues, hc]
    rfl

theorem readSignal_combined {ops : List ℤ} {c : Agg}
    (h : p.CombinedEntry .signal s t i ops c) :
    p.readSignal hardware t =
      .ok (c.apply ((p.nested .signal t).map (p.nativeValue hardware))) := by
  refine readSignal_convert hardware h.inRange h.convert h.found h.isNested h.combiner ?_
  refine ((forall₂_and_left _ _).mp (h.operands.imp fun u j hentry => ⟨?_, hentry⟩)).1
  obtain ⟨g, k, gi, hentry⟩ := hentry
  exact ⟨hentry.inRange, _, hentry.server⟩

/-! ### The batch path -/

theorem sampleFrom_native {g : IOGroup S H} {k : ℕ} {gi : ℤ} (depth : ℕ)
    (h : p.NativeEntry .signal s t i g k gi) :
    p.sampleFrom (p.readBatch s) (depth + 1) i = .ok (p.nativeValue s.hardware t) := by
  obtain ⟨hmem, herror⟩ := mem_findIogroup_of_server h.server
  have hg := (mem_findIogroup hmem).1
  have hlt := (List.getElem?_eq_some_iff.mp h.active).1
  have hnonneg := h.nonneg
  have hrange : ¬ (i < 0 ∨ ((p.readBatch s).table .signal).active.length ≤ i) := by
    change ¬ (i < 0 ∨ (s.table .signal).active.length ≤ i)
    omega
  have hactive : ((p.readBatch s).table .signal).active[i.toNat]? = some (some k, gi) := h.active
  have hread : (p.readBatch s).isSignalActive = true := rfl
  rw [sampleFrom, if_neg hrange, if_neg (not_not.mpr hread), hactive]
  dsimp only
  rw [hg]
  dsimp only
  rw [readBatch_groupState hg,
    (g.readBatch_spec (s.hardware k) (s.groupState k)).2 t gi h.pushed herror, nativeValue,
    h.server]
  rfl

theorem sampleFrom_combined {ops : List ℤ} {c : Agg} (depth : ℕ)
    (h : p.CombinedEntry .signal s t i ops c) :
    p.sampleFrom (p.readBatch s) (depth + 2) i =
      .ok (c.apply ((p.nested .signal t).map (p.nativeValue s.hardware))) := by
  have hlt := (List.getElem?_eq_some_iff.mp h.active).1
  have hnonneg := h.nonneg
  have hrange : ¬ (i < 0 ∨ ((p.readBatch s).table .signal).active.length ≤ i) := by
    change ¬ (i < 0 ∨ (s.table .signal).active.length ≤ i)
    omega
  have hactive : ((p.readBatch s).table .signal).active[i.toNat]? = some (none, i) := h.active
  have hcombined : ((p.readBatch s).table .signal).combined i = some (ops, c) := h.combined
  have hoperands : ops.mapM (p.sampleFrom (p.readBatch s) (depth + 1)) =
      .ok ((p.nested .signal t).map (p.nativeValue s.hardware)) := by
    rw [mapM_eq_ok, forall₂_map_right_iff]
    refine List.Forall₂.flip (h.operands.imp fun u j hentry => ?_)
    obtain ⟨g, k, gi, hentry⟩ := hentry
    exact sampleFrom_native depth hentry
  have hread : (p.readBatch s).isSignalActive = true := rfl
  rw [sampleFrom, if_neg hrange, if_neg (not_not.mpr hread), hactive]
  dsimp only
  rw [hcombined]
  dsimp only
  rw [hoperands]
  rfl

/-- An index that stands for what `read_signal` does is sampled as it is read. -/
theorem sample_of_entry (h : p.Entry .signal s t i) :
    ∃ v, p.readSignal s.hardware t = .ok v ∧ p.sample (p.readBatch s) i = .ok v := by
  obtain ⟨g, k, gi, h⟩ | ⟨ops, c, h⟩ := h
  · exact ⟨_, readSignal_native s.hardware h.inRange h.native h.server, sampleFrom_native _ h⟩
  · have hlt := (List.getElem?_eq_some_iff.mp h.active).1
    obtain ⟨n, hn⟩ := Nat.exists_eq_add_of_lt hlt
    refine ⟨_, readSignal_combined s.hardware h, ?_⟩
    have hdepth : ((p.readBatch s).table .signal).active.length + 1 = i.toNat + n + 2 :=
      congrArg (· + 1) hn
    rw [sample, hdepth]
    exact sampleFrom_combined _ h

end Platform

namespace Client

open Platform

variable {S H : Type}

/-- **A pushed signal is sampled as it is read**, in every run whose pushes are routed to the
IOGroups that `read_signal` uses. -/
theorem sample_eq_readSignal (p : Platform S H) (groupState : ℕ → S) (hardware : ℕ → H)
    {x : Client S H}
    (h : (Lts.ofFun (next p .signal)).ReachableIf (Routed p .signal)
      (start groupState hardware) x) :
    ∀ t i, (t, i) ∈ x.pushed →
      ∃ v, p.readSignal x.pio.hardware t = .ok v ∧
        p.sample (p.readBatch x.pio) i = .ok v := by
  have hinv := inv_of_reachable h
  intro t i ht
  exact sample_of_entry (hinv.pio t i (hinv.pushed t i ht))

/-- The first package is served by the first IOGroup, since the latest one raises for it; the board
is made of it and of the second package. -/
theorem sample_eq_readSignal_board :
    ∃ v, (fallbackPlatform [0]).readSignal
        (afterPushes .signal [0] [powerLimit 0, boardPowerLimit]).pio.hardware boardPowerLimit =
          .ok v ∧
      (fallbackPlatform [0]).sample ((fallbackPlatform [0]).readBatch
        (afterPushes .signal [0] [powerLimit 0, boardPowerLimit]).pio) 2 = .ok v := by
  have hrun : Lts.Along (Routed (fallbackPlatform [0]) .signal) (next (fallbackPlatform [0]) .signal)
      (start (fun _ => {}) registers) ([powerLimit 0, boardPowerLimit].map Call.push) := by
    refine ⟨?_, ?_, trivial⟩
    · refine ⟨fun _ => ⟨fun g hg => ?_, trivial⟩, fun _ => trivial⟩
      exact hg
    · refine ⟨fun hnew => absurd (hnew 0) (not_not.mpr ⟨rfl, by decide⟩), fun _ => ?_⟩
      exact ⟨fun _ => ⟨fun g hg => hg, trivial⟩, fun _ => trivial⟩
  exact sample_eq_readSignal (fallbackPlatform [0]) (fun _ => {}) registers
    (Lts.reachableIf_of_along hrun) boardPowerLimit 2
    (mem_cons_of_mem _ mem_cons_self)

/-- The second package is pushed to the latest IOGroup, which cannot read it, since the name has
been read from the first IOGroup for the first package. -/
theorem sample_ne_readSignal :
    ¬ ∀ x, (Lts.ofFun (next (fallbackPlatform [0, 1]) .signal)).Reachable
        (start (fun _ => {}) registers) x → ∀ t i, (t, i) ∈ x.pushed →
      ∃ v, (fallbackPlatform [0, 1]).readSignal x.pio.hardware t = .ok v ∧
        (fallbackPlatform [0, 1]).sample ((fallbackPlatform [0, 1]).readBatch x.pio) i = .ok v := by
  intro h
  have hreach : (Lts.ofFun (next (fallbackPlatform [0, 1]) .signal)).Reachable
      (start (fun _ => {}) registers) (afterPushes .signal [0, 1] [powerLimit 0, powerLimit 1]) :=
    Lts.reachableIf_of_along ⟨trivial, trivial, trivial⟩
  obtain ⟨v, hread, hsample⟩ :=
    h _ hreach (powerLimit 1) 1 (mem_cons_of_mem _ mem_cons_self)
  have hread' : Except.ok (some 0) = (Except.ok v : Except Exception Value) := hread
  have hsample' : Except.ok (some 1) = (Except.ok v : Except Exception Value) := hsample
  have hzero : (0 : ℚ) = 1 := by
    rw [← hsample'] at hread'
    exact Option.some.inj (Except.ok.inj hread')
  exact zero_ne_one hzero

end Client

end Geopm.Pio
