import Geopm.Pio.Client

/-!
# The indices of what has been pushed

* `Indexed` : the indices of a table are below the number of what is active, belong to one request
  each, and what is combined stands after its operands;
* `Platform.wp_push_grows` : a push keeps that, also when it raises half way;
* `Platform.sample_spec`, `Platform.adjust_spec` : `sample` and `adjust` end at every index, and
  raise only what an IOGroup raises;
* `History.disciplined_of_reachable` : what holds of the indices that were returned, after every
  sequence of calls.
-/

namespace Geopm.Pio

open Prog
open Function (update update_self update_of_ne)
open List hiding modify

/-- The index stands for an IOGroup, of which there are `n`, or for what is combined of smaller
indices. -/
inductive Grounded {kind : Kind} (n : ℕ) (table : PushTable kind) (idx : ℕ) : Prop where
  | native (k : ℕ) (groupIdx : ℤ) (hactive : table.active[idx]? = some (some k, groupIdx))
      (hk : k < n)
  | combined (ops : List ℤ) (c : Combiner kind)
      (hactive : table.active[idx]? = some (none, (idx : ℤ)))
      (hcombined : table.combined idx = some (ops, c)) (hops : ∀ op ∈ ops, 0 ≤ op ∧ op < idx)

/-- The indices of a table. -/
structure Indexed {kind : Kind} (n : ℕ) (table : PushTable kind) : Prop where
  bounded : ∀ t i, table.existing t = some i → i ≠ -1 → 0 ≤ i ∧ i < table.active.length
  injective : ∀ t u i, table.existing t = some i → table.existing u = some i → i ≠ -1 → t = u
  grounded : ∀ idx, idx < table.active.length → Grounded n table idx

/-- What an index stands for does not change when others follow. -/
theorem Grounded.append {kind : Kind} {n : ℕ} {table table' : PushTable kind} {idx : ℕ}
    (h : Grounded n table idx) (hactive : table.active <+: table'.active)
    (hcombined : table'.combined idx = table.combined idx) : Grounded n table' idx := by
  cases h with
  | native k groupIdx hget hk =>
    exact .native k groupIdx (Platform.getElem?_of_prefix hactive hget) hk
  | combined ops c hget hops hlt =>
    exact .combined ops c (Platform.getElem?_of_prefix hactive hget) (hcombined.trans hops) hlt

theorem Indexed.concat {kind : Kind} {n : ℕ} {table : PushTable kind} (h : Indexed n table)
    {entry : Option ℕ × ℤ} {combined : ℤ → Option (List ℤ × Combiner kind)}
    (hcombined : ∀ idx : ℕ, idx < table.active.length → combined idx = table.combined idx)
    (hentry : Grounded n { table with active := table.active ++ [entry], combined := combined }
      table.active.length) :
    Indexed n { table with active := table.active ++ [entry], combined := combined } where
  bounded t i ht hi := by
    have hbounded := h.bounded t i ht hi
    simp only [length_append, length_singleton]
    omega
  injective := h.injective
  grounded idx hidx := by
    simp only [length_append, length_singleton] at hidx
    obtain hlt | rfl := Nat.lt_succ_iff_lt_or_eq.mp hidx
    · exact (h.grounded idx hlt).append (prefix_append _ _) (hcombined idx hlt)
    · exact hentry

/-- A new request is given an index that no request has, or none with `-1`. -/
theorem Indexed.assign {kind : Kind} {n : ℕ} {table : PushTable kind} (h : Indexed n table)
    {t : Request} {result : ℤ}
    (hresult : result ≠ -1 → (0 ≤ result ∧ result < table.active.length) ∧
      ∀ u, table.existing u ≠ some result) :
    Indexed n { table with existing := update table.existing t (some result) } where
  bounded u i hu hi := by
    dsimp only at hu ⊢
    by_cases hut : u = t
    · rw [hut, update_self] at hu
      cases hu
      exact (hresult hi).1
    · rw [update_of_ne hut] at hu
      exact h.bounded u i hu hi
  injective u v i hu hv hi := by
    dsimp only at hu hv
    by_cases hut : u = t <;> by_cases hvt : v = t
    · exact hut.trans hvt.symm
    · rw [hut, update_self] at hu
      rw [update_of_ne hvt] at hv
      cases hu
      exact absurd hv ((hresult hi).2 v)
    · rw [update_of_ne hut] at hu
      rw [hvt, update_self] at hv
      cases hv
      exact absurd hu ((hresult hi).2 u)
    · rw [update_of_ne hut] at hu
      rw [update_of_ne hvt] at hv
      exact h.injective u v i hu hv hi
  grounded idx hidx := (h.grounded idx hidx).append prefix_rfl rfl

namespace Platform

open PlatformIOImp

variable {S H : Type} {p : Platform S H} {kind : Kind} {t : Request} {i : ℤ} {n : ℕ}
  {s s' s'' : PlatformIOImp S H}

/-- What a push leaves behind: only the requests of `ts` may have been given an index. -/
structure Grows (n : ℕ) (kind : Kind) (ts : List Request) (s s' : PlatformIOImp S H) : Prop where
  indexed : Indexed n (s'.table kind)
  active : (s.table kind).active <+: (s'.table kind).active
  existing : ∀ t i, Live kind s t i → Live kind s' t i
  only : ∀ u, u ∉ ts → (s'.table kind).existing u = (s.table kind).existing u
  others : ∀ kind', kind' ≠ kind → s'.table kind' = s.table kind'

variable {ts : List Request}

theorem Grows.refl (h : Indexed n (s.table kind)) : Grows n kind ts s s :=
  ⟨h, prefix_rfl, fun _ _ h => h, fun _ _ => rfl, fun _ _ => rfl⟩

/-- The tables have not changed. -/
theorem Grows.of_table (h : Indexed n (s.table kind))
    (htable : s'.table = s.table) : Grows n kind ts s s' where
  indexed := htable ▸ h
  active := htable ▸ prefix_rfl
  existing t i ht := by rw [Live, htable]; exact ht
  only _ _ := by rw [htable]
  others _ _ := by rw [htable]

theorem Grows.trans {ts ts' : List Request} (h : Grows n kind ts s s')
    (h' : Grows n kind ts' s' s'') : Grows n kind (ts ++ ts') s s'' where
  indexed := h'.indexed
  active := h.active.trans h'.active
  existing t i ht := h'.existing t i (h.existing t i ht)
  only u hu := by
    rw [mem_append, not_or] at hu
    rw [h'.only u hu.2, h.only u hu.1]
  others kind' hne := (h'.others kind' hne).trans (h.others kind' hne)

theorem Grows.mono {ts ts' : List Request} (h : Grows n kind ts s s') (hts : ts ⊆ ts') :
    Grows n kind ts' s s' :=
  { h with only := fun u hu => h.only u fun hmem => hu (hts hmem) }

theorem Grows.of_update {table' : PushTable kind}
    (htable : s'.table = update s.table kind table') (hindexed : Indexed n table')
    (hactive : (s.table kind).active <+: table'.active)
    (hexisting : ∀ u, u ∉ ts → table'.existing u = (s.table kind).existing u)
    (hnew : ∀ u ∈ ts, ∀ i, ¬ Live kind s u i) : Grows n kind ts s s' := by
  have hself : s'.table kind = table' := by rw [htable, update_self]
  refine ⟨hself ▸ hindexed, hself ▸ hactive, fun u i hu => ?_, fun u hu => ?_, fun kind' hne => ?_⟩
  · by_cases hmem : u ∈ ts
    · exact absurd hu (hnew u hmem i)
    · rw [Live, hself, hexisting u hmem]
      exact hu
  · rw [hself, hexisting u hu]
  · rw [htable, update_of_ne hne]

/-! ### A push at the native domain -/

theorem existing_ne_length (h : Indexed n (s.table kind)) (u : Request) :
    (s.table kind).existing u ≠ some ((s.table kind).active.length : ℤ) := by
  intro hu
  have hbounded := h.bounded u _ hu (by omega)
  omega

theorem wp_pushNative_grows {g : IOGroup S H × ℕ} (h : Indexed n (s.table kind)) (hg : g.2 < n)
    (hnew : ∀ i, ¬ Live kind s t i) :
    wp (pushNative kind g.1 g.2 t)
      (fun i s' => Grows n kind [t] s s' ∧ Live kind s' t i)
      (fun _ s' => Grows n kind [t] s s') s := by
  unfold pushNative onGroup
  rw [wp_bind, wp_zoom]
  refine wp_mono (IOGroup.wp_groupPush kind g.1 t (s.groupState g.2)) ?_
    fun e gs _ => Grows.of_table h rfl
  rintro gi gs -
  rw [wp_bind, wp_get, wp_bind, wp_set, wp_pure]
  have hconcat : Indexed n { s.table kind with
      active := (s.table kind).active ++ [(some g.2, gi)], combined := (s.table kind).combined } :=
    h.concat (fun _ _ => rfl) (.native g.2 gi getElem?_concat_length hg)
  refine ⟨.of_update rfl (hconcat.assign (t := t) fun _ => ⟨?_, existing_ne_length h⟩)
    (prefix_append _ _) (fun u hu => ?_) ?_, ?_⟩
  · simp only [length_append, length_singleton]
    omega
  · exact update_of_ne (ne_of_not_mem_cons hu) _ _
  · intro u hu
    rw [mem_singleton.mp hu]
    exact hnew
  · refine ⟨?_, by omega⟩
    change (update s.table kind _ kind).existing t = _
    rw [update_self]
    exact update_self _ _ _

theorem lt_of_mem_findIogroup {g : IOGroup S H × ℕ} {name : String}
    (hg : g ∈ p.findIogroup kind name) : g.2 < p.iogroupList.length :=
  (List.getElem?_eq_some_iff.mp (mem_findIogroup hg).1).1

theorem wp_pushLoop_native_grows {push : Request → Method S H ℤ} {gs : List (IOGroup S H × ℕ)}
    {errs : List Exception} (h : Indexed p.iogroupList.length (s.table kind))
    (hnative : t.domainType = p.nativeDomain kind t.name) (hnew : ∀ i, ¬ Live kind s t i)
    (hgs : ∀ g ∈ gs, g ∈ p.findIogroup kind t.name) :
    wp (p.pushLoop kind push t gs errs)
      (fun r s' => Grows p.iogroupList.length kind [t] s s' ∧ (r.1 ≠ -1 → Live kind s' t r.1))
      (fun _ s' => Grows p.iogroupList.length kind [t] s s') s := by
  induction gs generalizing s errs with
  | nil => exact ⟨.refl h, fun hne => absurd rfl hne⟩
  | cons g gs ih =>
    have hg := hgs g mem_cons_self
    rw [pushLoop, if_pos (hnative.trans (mem_findIogroup hg).2.2.symm), wp_bind]
    refine wp_probe g.1 g.2 fun hw => ?_
    have h₁ : Grows p.iogroupList.length kind [t] s { s with hardware := hw } := .of_table h rfl
    have hthen : ∀ s', Grows p.iogroupList.length kind [t] { s with hardware := hw } s' →
        Grows p.iogroupList.length kind [t] s s' :=
      fun s' h => (h₁.trans h).mono (append_subset.mpr ⟨.refl _, .refl _⟩)
    cases objection kind (s.pushedSignalNames t.name) g.1 t with
    | none =>
      dsimp only
      rw [wp_bind]
      refine wp_mono (wp_pushNative_grows h₁.indexed (lt_of_mem_findIogroup hg) hnew) ?_
        fun _ s' h => hthen s' h
      rintro i s' ⟨h, hlive⟩
      exact ⟨hthen s' h, fun _ => hlive⟩
    | some e =>
      refine wp_mono (ih h₁.indexed hnew fun g' hg' => hgs g' (mem_cons_of_mem _ hg')) ?_
        fun _ s' h => hthen s' h
      rintro r s' ⟨h, hlive⟩
      exact ⟨hthen s' h, hlive⟩

/-- A push gives the request an index when the loop over the IOGroups does, unless it has one. -/
theorem wp_pushWith_grows {push : Request → Method S H ℤ}
    (h : Indexed n (s.table kind))
    (hloop : (∀ i, ¬ Live kind s t i) →
      wp (p.pushLoop kind push t (p.findIogroup kind t.name) [])
        (fun r s' => Grows n kind ts s s' ∧ (r.1 ≠ -1 → Live kind s' t r.1))
        (fun _ s' => Grows n kind ts s s') s) :
    wp (p.pushWith kind push t)
      (fun i s' => Grows n kind ts s s' ∧ Live kind s' t i ∧ p.InRange t)
      (fun _ s' => Grows n kind ts s s') s := by
  unfold pushWith
  rw [wp_bind]
  refine wp_checkRange (fun hrange => ?_) fun _ => .refl h
  rw [wp_bind, wp_get, wp_ite]
  refine ⟨fun hi => ?_, fun hi => ?_⟩
  · rw [wp_pure]
    refine ⟨.refl h, ⟨?_, hi⟩, hrange⟩
    cases hexisting : (s.table kind).existing t with
    | none => rw [hexisting] at hi; exact absurd rfl hi
    | some i => rfl
  · have hnew : ∀ i, ¬ Live kind s t i := by
      rintro i ⟨hexisting, hne⟩
      rw [hexisting] at hi
      exact hi hne
    unfold pushNew
    rw [wp_bind, wp_get, wp_ite]
    refine ⟨fun _ => .refl h, fun _ => ?_⟩
    rw [wp_bind]
    refine wp_mono (hloop hnew) ?_ fun _ _ h => h
    rintro r s' ⟨h, hlive⟩
    rw [wp_ite]
    exact ⟨fun _ => h, fun hne => ⟨h, hlive hne, hrange⟩⟩

/-! ### A push at another domain -/

theorem wp_pushAll_grows {us : List Request} (h : Indexed p.iogroupList.length (s.table kind))
    (hus : ∀ u ∈ us, u.domainType = p.nativeDomain kind u.name) :
    wp (pushAll (p.push kind) us)
      (fun is s' => Grows p.iogroupList.length kind us s s' ∧ ∀ i ∈ is, ∃ u, Live kind s' u i)
      (fun _ s' => Grows p.iogroupList.length kind us s s') s := by
  induction us generalizing s with
  | nil => exact ⟨.refl h, fun i hi => absurd hi not_mem_nil⟩
  | cons u us ih =>
    have hnative := hus u mem_cons_self
    have hpush : wp (p.pushWith kind (p.push kind) u) _ _ s := wp_pushWith_grows h fun hnew =>
      wp_pushLoop_native_grows h hnative hnew fun _ hg => hg
    rw [pushAll, wp_bind, push_eq]
    refine wp_mono hpush ?_ fun _ s' h => h.mono (cons_subset_cons u (nil_subset us))
    rintro i s₁ ⟨h₁, hlive, -⟩
    rw [wp_bind]
    refine wp_mono (ih h₁.indexed fun v hv => hus v (mem_cons_of_mem _ hv)) ?_
      fun _ s' h => h₁.trans h
    rintro is s₂ ⟨h₂, hlives⟩
    rw [wp_pure]
    refine ⟨h₁.trans h₂, fun j hj => ?_⟩
    obtain rfl | hj := mem_cons.mp hj
    · exact ⟨u, h₂.existing u j hlive⟩
    · exact hlives j hj

theorem wp_pushCombined_grows {name : String} {ops : List ℤ} (h : Indexed n (s.table kind))
    (hops : ∀ i ∈ ops, ∃ u, Live kind s u i) :
    wp (p.pushCombined kind name ops)
      (fun i s' => Grows n kind [] s s' ∧ i = (s.table kind).active.length ∧
        i < (s'.table kind).active.length)
      (fun _ s' => Grows n kind [] s s') s := by
  unfold pushCombined
  rw [wp_bind, wp_get, wp_bind]
  cases hc : p.combiner name ops.length kind with
  | error e => exact .refl h
  | ok c =>
    refine wp_ret rfl ?_
    rw [wp_bind, wp_modify, wp_pure]
    have hconcat : Indexed n { s.table kind with
        active := (s.table kind).active ++ [(none, ((s.table kind).active.length : ℤ))]
        combined := update (s.table kind).combined ((s.table kind).active.length : ℤ)
          (some (ops, c)) } := by
      refine h.concat (fun idx hidx => update_of_ne (by omega) _ _) ?_
      refine .combined ops c getElem?_concat_length (update_self _ _ _)
        fun op hop => ?_
      obtain ⟨u, hu, hne⟩ := hops op hop
      exact h.bounded u op hu hne
    refine ⟨.of_update rfl hconcat (prefix_append _ _) (fun _ _ => rfl)
      fun u hu => absurd hu not_mem_nil, rfl, ?_⟩
    rw [setTable_table_self]
    simp only [length_append, length_singleton]
    omega

/-- A request is given an index that no request has, or none with `-1`. -/
theorem grows_setExisting {result : ℤ} (h : Indexed n (s.table kind))
    (hnew : ∀ i, ¬ Live kind s t i)
    (hresult : result ≠ -1 → (0 ≤ result ∧ result < (s.table kind).active.length) ∧
      ∀ u, (s.table kind).existing u ≠ some result) :
    Grows n kind [t] s (s.setTable kind fun table =>
      { table with existing := update table.existing t (some result) }) := by
  refine .of_update rfl (h.assign hresult) prefix_rfl (fun u hu => ?_) fun u hu => ?_
  · exact update_of_ne (ne_of_not_mem_cons hu) _ _
  · rw [mem_singleton.mp hu]
    exact hnew

/-- The loop over the IOGroups, for a request at another domain than the native one. -/
theorem wp_pushLoop_convert_grows {gs : List (IOGroup S H × ℕ)} {errs : List Exception}
    (h : Indexed p.iogroupList.length (s.table kind))
    (hconvert : t.domainType ≠ p.nativeDomain kind t.name) (hnew : ∀ i, ¬ Live kind s t i)
    (hgs : ∀ g ∈ gs, g ∈ p.findIogroup kind t.name) :
    wp (p.pushLoop kind (p.push kind) t gs errs)
      (fun r s' => Grows p.iogroupList.length kind (p.touched kind t) s s' ∧
        (r.1 ≠ -1 → Live kind s' t r.1))
      (fun _ s' => Grows p.iogroupList.length kind (p.touched kind t) s s') s := by
  have ht : [t] ⊆ p.touched kind t := cons_subset_cons t (nil_subset _)
  have hsub : p.nested kind t ⊆ p.touched kind t := subset_cons_self _ _
  induction gs generalizing s errs with
  | nil => exact ⟨.refl h, fun hne => absurd rfl hne⟩
  | cons g gs ih =>
    have hdomain := (mem_findIogroup (hgs g mem_cons_self)).2.2
    rw [pushLoop, if_neg fun h => hconvert (h.trans hdomain), pushConvertDomain]
    by_cases hnested : p.topo.isNestedDomain (p.nativeDomain kind t.name) t.domainType = true
    case neg =>
      rw [if_neg hnested, wp_bind, wp_pure, wp_bind, wp_modify, if_neg (not_not.mpr rfl)]
      have h₁ := grows_setExisting h hnew fun hne : (-1 : ℤ) ≠ -1 => absurd rfl hne
      have hthen : ∀ s', Grows p.iogroupList.length kind (p.touched kind t) _ s' →
          Grows p.iogroupList.length kind (p.touched kind t) s s' :=
        fun s' h => (h₁.trans h).mono (append_subset.mpr ⟨ht, .refl _⟩)
      refine wp_mono (ih h₁.indexed (fun i hi => ?_)
        fun g' hg' => hgs g' (mem_cons_of_mem _ hg')) ?_ fun _ s' h => hthen s' h
      · rw [Live, setTable_table_self] at hi
        obtain ⟨hexisting, hne⟩ := hi
        dsimp only at hexisting
        rw [update_self, Option.some.injEq] at hexisting
        exact hne hexisting.symm
      · rintro r s' ⟨h, hlive⟩
        exact ⟨hthen s' h, hlive⟩
    case pos =>
      rw [if_pos hnested, wp_bind, wp_bind]
      refine wp_mono (wp_pushAll_grows h fun u hu => (mem_nested hu).2) ?_
        fun _ s' h => h.mono hsub
      rintro ops s₁ ⟨h₁, hops⟩
      refine wp_mono (wp_pushCombined_grows h₁.indexed hops) ?_
        fun _ s' h => (h₁.trans h).mono (append_subset.mpr ⟨hsub, nil_subset _⟩)
      rintro i s₂ ⟨h₂, hi, hlt⟩
      have h₁₂ := h₁.trans h₂
      -- the requests that have been pushed on the way are at the native domain
      have hmem : t ∉ p.nested kind t ++ [] := by
        rw [append_nil]
        exact fun hmem => hconvert (mem_nested hmem).2
      have hnew₂ : ∀ j, ¬ Live kind s₂ t j := by
        intro j hj
        rw [Live, h₁₂.only t hmem] at hj
        exact hnew j hj
      have hfree : ∀ u, (s₂.table kind).existing u ≠ some i := by
        intro u hu
        rw [h₂.only u not_mem_nil, hi] at hu
        exact existing_ne_length h₁.indexed u hu
      have h₃ := grows_setExisting h₂.indexed hnew₂ fun _ : i ≠ -1 => ⟨⟨by omega, hlt⟩, hfree⟩
      have hne : i ≠ -1 := by omega
      rw [wp_bind, wp_modify, if_pos hne, wp_pure]
      refine ⟨(h₁₂.trans h₃).mono ?_, fun _ => ⟨?_, hne⟩⟩
      · rw [append_nil]
        exact append_subset.mpr ⟨hsub, ht⟩
      · rw [setTable_table_self]
        exact update_self _ _ _

theorem wp_push_grows (h : Indexed p.iogroupList.length (s.table kind)) :
    wp (p.push kind t)
      (fun i s' => Grows p.iogroupList.length kind (p.touched kind t) s s' ∧ Live kind s' t i ∧
        p.InRange t)
      (fun _ s' => Grows p.iogroupList.length kind (p.touched kind t) s s') s := by
  rw [push_eq]
  refine wp_pushWith_grows h fun hnew => ?_
  by_cases hnative : t.domainType = p.nativeDomain kind t.name
  · have ht : [t] ⊆ p.touched kind t := cons_subset_cons t (nil_subset _)
    refine wp_mono (wp_pushLoop_native_grows h hnative hnew fun _ hg => hg) ?_
      fun _ _ h => h.mono ht
    exact fun _ _ h => ⟨h.1.mono ht, h.2⟩
  · exact wp_pushLoop_convert_grows h hnative hnew fun _ hg => hg

theorem push_of_live (hrange : p.InRange t) (h : Live kind s t i) : p.push kind t s = .ok i s := by
  obtain ⟨hexisting, hne⟩ := h
  have hresult : ((s.table kind).existing t).getD (-1) = i := by rw [hexisting, Option.getD_some]
  rw [push_eq]
  unfold pushWith
  rw [checkRange_of_inRange hrange]
  refine (congrFun (if_pos ?_) s).trans ?_
  · rw [hresult]
    exact hne
  · rw [hresult]
    rfl

/-! ### Samples and adjustments -/

/-- An IOGroup that an index stands for raises the exception when it is sampled. -/
def RaisedBySample (p : Platform S H) (s : PlatformIOImp S H) (e : Exception) : Prop :=
  ∃ k g groupIdx, p.iogroupList[k]? = some g ∧ (some k, groupIdx) ∈ (s.table .signal).active ∧
    g.sample groupIdx (s.groupState k) = .error e

/-- An IOGroup that an index stands for raises the exception when it is adjusted. -/
def RaisedByAdjust (p : Platform S H) (active : List (Option ℕ × ℤ)) (e : Exception) : Prop :=
  ∃ k g groupIdx v, p.iogroupList[k]? = some g ∧ (some k, groupIdx) ∈ active ∧
    ∃ gs gs', g.adjust groupIdx v gs = .error e gs'

/-- `sample` ends, since what is combined stands after its operands: at every depth that is greater
than the index it does the same, and what it raises is raised by an IOGroup. -/
theorem sampleFrom_spec (h : Indexed p.iogroupList.length (s.table .signal))
    (hactive : s.isSignalActive = true) {idx : ℕ} (hidx : idx < (s.table .signal).active.length) :
    (∀ depth, idx < depth → p.sampleFrom s depth idx = p.sampleFrom s (idx + 1) idx) ∧
      ∀ e, p.sampleFrom s (idx + 1) idx = .error e → p.RaisedBySample s e := by
  induction idx using Nat.strong_induction_on with
  | _ idx ih =>
    have hrange : ¬ ((idx : ℤ) < 0 ∨ ((s.table .signal).active.length : ℤ) ≤ idx) := by omega
    have hread : ¬ ¬ s.isSignalActive := not_not.mpr hactive
    cases h.grounded idx hidx with
    | native k groupIdx hget hk =>
      have hgroup : p.iogroupList[k]? = some p.iogroupList[k] := getElem?_eq_getElem hk
      have hsample : ∀ depth, p.sampleFrom s (depth + 1) idx =
          (p.iogroupList[k]).sample groupIdx (s.groupState k) := by
        intro depth
        rw [sampleFrom, if_neg hrange, if_neg hread, Int.toNat_natCast, hget]
        dsimp only
        rw [hgroup]
      refine ⟨fun depth hdepth => ?_, fun e he => ?_⟩
      · obtain ⟨d, rfl⟩ := Nat.exists_eq_succ_of_ne_zero (Nat.ne_of_gt (Nat.zero_lt_of_lt hdepth))
        rw [hsample, hsample]
      · rw [hsample] at he
        exact ⟨k, _, groupIdx, hgroup, mem_of_getElem? hget, he⟩
    | combined ops c hget hcombined hops =>
      have hsample : ∀ depth, p.sampleFrom s (depth + 1) idx = (do
          let operands ← ops.mapM (p.sampleFrom s depth)
          pure (Agg.apply c operands)) := by
        intro depth
        rw [sampleFrom, if_neg hrange, if_neg hread, Int.toNat_natCast, hget]
        dsimp only
        rw [hcombined]
      have hoperand : ∀ op ∈ ops, ∃ j : ℕ, op = j ∧ j < idx ∧
          j < (s.table .signal).active.length := by
        intro op hop
        have hlt := hops op hop
        exact ⟨op.toNat, by omega, by omega, by omega⟩
      refine ⟨fun depth hdepth => ?_, fun e he => ?_⟩
      · obtain ⟨d, rfl⟩ := Nat.exists_eq_succ_of_ne_zero (Nat.ne_of_gt (Nat.zero_lt_of_lt hdepth))
        have hsame : ops.mapM (p.sampleFrom s d) = ops.mapM (p.sampleFrom s idx) := by
          refine mapM_congr fun op hop => ?_
          obtain ⟨j, rfl, hj, hlen⟩ := hoperand op hop
          rw [(ih j hj hlen).1 d (by omega), (ih j hj hlen).1 idx hj]
        rw [hsample, hsample, hsame]
      · rw [hsample] at he
        cases hmap : ops.mapM (p.sampleFrom s idx) with
        | ok operands =>
          rw [hmap] at he
          cases he
        | error e' =>
          rw [hmap] at he
          cases he
          obtain ⟨op, hop, hraise⟩ := exists_error_of_mapM hmap
          obtain ⟨j, rfl, hj, hlen⟩ := hoperand op hop
          rw [(ih j hj hlen).1 idx hj] at hraise
          exact (ih j hj hlen).2 _ hraise

/-- `adjust` of an index ends, and what it raises is raised by an IOGroup. -/
theorem wp_adjustFrom_spec {idx : ℕ} {depth : ℕ} (hdepth : idx < depth) (q : ℚ)
    (h : Indexed p.iogroupList.length (s.table .control))
    (hidx : idx < (s.table .control).active.length) :
    wp (p.adjustFrom depth idx (some q)) (fun _ s' => s'.table = s.table)
      (fun e s' => s'.table = s.table ∧ p.RaisedByAdjust (s.table .control).active e) s := by
  induction idx using Nat.strong_induction_on generalizing depth q s with
  | _ idx ih =>
    obtain ⟨d, rfl⟩ := Nat.exists_eq_succ_of_ne_zero (Nat.ne_of_gt (Nat.zero_lt_of_lt hdepth))
    have hrange : ¬ ((idx : ℤ) < 0 ∨ ((s.table .control).active.length : ℤ) ≤ idx) := by omega
    rw [adjustFrom, wp_bind, wp_get, if_neg hrange, if_neg (Option.some_ne_none q),
      Int.toNat_natCast]
    cases h.grounded idx hidx with
    | native k groupIdx hget hk =>
      have hgroup : p.iogroupList[k]? = some p.iogroupList[k] := getElem?_eq_getElem hk
      rw [hget]
      dsimp only
      rw [hgroup]
      dsimp only
      rw [wp_bind, onGroup, wp_zoom]
      unfold wp
      cases hadjust : (p.iogroupList[k]).adjust groupIdx (some q) (s.groupState k) with
      | ok a gs => rfl
      | error e gs =>
        exact ⟨rfl, k, _, groupIdx, some q, hgroup, mem_of_getElem? hget, _, gs, hadjust⟩
    | combined ops c hget hcombined hops =>
      rw [hget]
      dsimp only
      rw [hcombined]
      dsimp only
      rw [wp_bind]
      refine wp_mono_ok (wp_forM (I := fun s' => s'.table = s.table) rfl fun op hop s' hs' => ?_)
        fun _ s' hs' => wp_modify.mpr hs'
      have hlt := hops op hop
      obtain ⟨j, rfl⟩ : ∃ j : ℕ, op = j := ⟨op.toNat, by omega⟩
      have hscale : ∃ r : ℚ, scale c (some q) = some r := ⟨_, rfl⟩
      obtain ⟨r, hr⟩ := hscale
      have hoperand : wp (p.adjustFrom d j (some r)) _ _ s' :=
        ih j (by omega) (by omega) r (hs'.symm ▸ h) (by rw [hs']; omega)
      rw [hs'] at hoperand
      rw [hr]
      exact hoperand

theorem adjustFrom_keeps (p : Platform S H) (depth : ℕ) (controlIdx : ℤ) (setting : Value) :
    Keeps (fun s => s.table) (p.adjustFrom depth controlIdx setting) := by
  induction depth generalizing controlIdx setting with
  | zero => exact Keeps.throw _
  | succ depth ih =>
    rw [adjustFrom]
    refine Keeps.get.bind fun s => Keeps.ite (Keeps.throw _) (Keeps.ite (Keeps.throw _) ?_)
    have hactive : Keeps (fun s : PlatformIOImp S H => s.table)
        (modify fun s => { s with isControlActive := true } : Method S H PUnit) := fun _ => rfl
    have hthrow : ∀ e : Exception, Keeps (fun s : PlatformIOImp S H => s.table)
        (throw e : Method S H PUnit) := fun e => Keeps.throw e
    split
    · split
      · refine Keeps.bind (fun s => ?_) fun _ => hactive
        rw [onGroup, wp_zoom]
        exact wp_mono (wp_const.mpr trivial) (fun _ _ _ => rfl) fun _ _ _ => rfl
      · exact (hthrow _).bind fun _ => hactive
    · split
      · exact (Keeps.forM fun op => ih op _).bind fun _ => hactive
      · exact (hthrow _).bind fun _ => hactive
    · exact (hthrow _).bind fun _ => hactive

theorem adjust_keeps (p : Platform S H) (controlIdx : ℤ) (setting : Value) :
    Keeps (fun s => s.table) (p.adjust controlIdx setting) :=
  Keeps.get.bind fun _ => adjustFrom_keeps p _ controlIdx setting

/-- `num_signal_pushed` and `num_control_pushed`. -/
def numPushed (kind : Kind) (s : PlatformIOImp S H) : ℕ := (s.table kind).active.length

end Platform

/-! ### Every sequence of calls -/

/-- A client, with the indices that its pushes have returned. -/
structure History (S H : Type) where
  pio : PlatformIOImp S H
  returned : List (Kind × Request × ℤ) := []

namespace History

open Platform

variable {S H : Type}

/-- The calls of a client. -/
inductive Call where
  | push (kind : Kind) (t : Request)
  | readBatch
  | adjust (controlIdx : ℤ) (setting : Value)
  | writeBatch

/-- A call, and what the IOGroups do in it.  A push that raises leaves what it has done so far. -/
def next (x : History S H) (l : Platform S H × Call) : History S H :=
  match l.2 with
  | .push kind t =>
    match l.1.push kind t x.pio with
    | .ok i pio => { pio := pio, returned := x.returned ++ [(kind, t, i)] }
    | .error _ pio => { x with pio := pio }
  | .readBatch => { x with pio := l.1.readBatch x.pio }
  | .adjust controlIdx setting => { x with pio := final (l.1.adjust controlIdx setting) x.pio }
  | .writeBatch => { x with pio := l.1.writeBatch x.pio }

/-- A new `PlatformIOImp`. -/
def start (groupState : ℕ → S) (hardware : ℕ → H) : History S H where
  pio := { groupState := groupState, hardware := hardware }

/-- The same topology and as many IOGroups, which may answer differently. -/
def Alike (p p' : Platform S H) : Prop :=
  p'.topo = p.topo ∧ p'.iogroupList.length = p.iogroupList.length

/-- What holds of the indices that have been returned. -/
structure Disciplined (p : Platform S H) (x : History S H) : Prop where
  /-- A request gets its index again. -/
  again : ∀ kind t i, (kind, t, i) ∈ x.returned → p.push kind t x.pio = .ok i x.pio
  same : ∀ kind t i j, (kind, t, i) ∈ x.returned → (kind, t, j) ∈ x.returned → i = j
  /-- Different requests have different indices. -/
  distinct : ∀ kind t u i, (kind, t, i) ∈ x.returned → (kind, u, i) ∈ x.returned → t = u
  below : ∀ kind t i, (kind, t, i) ∈ x.returned → 0 ≤ i ∧ i < numPushed kind x.pio
  /-- What is combined stands after its operands. -/
  ordered : ∀ kind idx, idx < numPushed kind x.pio →
    Grounded p.iogroupList.length (x.pio.table kind) idx
  /-- A sample ends, and raises only what an IOGroup raises. -/
  sample : ∀ t i, (.signal, t, i) ∈ x.returned → x.pio.isSignalActive = true →
    (∀ depth : ℕ, i < depth → p.sampleFrom x.pio depth i = p.sample x.pio i) ∧
      ∀ e, p.sample x.pio i = .error e → p.RaisedBySample x.pio e
  /-- An adjustment ends, and raises only what an IOGroup raises. -/
  adjust : ∀ t i q, (.control, t, i) ∈ x.returned →
    wp (p.adjust i (some q)) (fun _ _ => True)
      (fun e _ => p.RaisedByAdjust (x.pio.table .control).active e) x.pio

/-- The indices that have been returned are those of the tables. -/
structure Inv (p : Platform S H) (x : History S H) : Prop where
  indexed : ∀ kind, Indexed p.iogroupList.length (x.pio.table kind)
  returned : ∀ kind t i, (kind, t, i) ∈ x.returned → Live kind x.pio t i ∧ p.InRange t

variable {p p' : Platform S H} {x : History S H}

theorem Inv.of_table (h : Inv p x) {pio : PlatformIOImp S H} (htable : pio.table = x.pio.table) :
    Inv p { x with pio := pio } where
  indexed kind := by
    rw [htable]
    exact h.indexed kind
  returned kind t i ht := by
    rw [Live, htable]
    exact h.returned kind t i ht

/-- A push that grows the table of its kind keeps what has been returned. -/
theorem Inv.grows (h : Inv p x) {kind : Kind} {ts : List Request} {pio : PlatformIOImp S H}
    (hg : Grows p.iogroupList.length kind ts x.pio pio) : Inv p { x with pio := pio } where
  indexed kind' := by
    by_cases hk : kind' = kind
    · rw [hk]
      exact hg.indexed
    · rw [hg.others kind' hk]
      exact h.indexed kind'
  returned kind' t i ht := by
    obtain ⟨hlive, hrange⟩ := h.returned kind' t i ht
    refine ⟨?_, hrange⟩
    by_cases hk : kind' = kind
    · subst hk
      exact hg.existing t i hlive
    · rw [Live, hg.others kind' hk]
      exact hlive

theorem inRange_of_alike (ha : Alike p p') {t : Request} (h : p'.InRange t) : p.InRange t := by
  rw [InRange, ha.1] at h
  exact h

theorem Inv.next {l : Platform S H × Call} (h : Inv p x) (ha : Alike p l.1) :
    Inv p (x.next l) := by
  obtain ⟨p', c⟩ := l
  cases c with
  | push kind t =>
    have hpush := wp_push_grows (p := p') (t := t) (s := x.pio) (ha.2.symm ▸ h.indexed kind)
    unfold wp at hpush
    unfold History.next
    dsimp only at ha ⊢
    rw [ha.2] at hpush
    cases hrun : p'.push kind t x.pio with
    | ok i pio =>
      rw [hrun] at hpush
      obtain ⟨hgrows, hlive, hrange⟩ := hpush
      have hx := h.grows hgrows
      refine ⟨hx.indexed, fun kind' u j hu => ?_⟩
      obtain hu | hu := mem_append.mp hu
      · exact hx.returned kind' u j hu
      · cases mem_singleton.mp hu
        exact ⟨hlive, inRange_of_alike ha hrange⟩
    | error e pio =>
      rw [hrun] at hpush
      exact h.grows hpush
  | readBatch => exact h.of_table rfl
  | adjust controlIdx setting =>
    exact h.of_table (wp_final.mp (adjust_keeps p' controlIdx setting x.pio))
  | writeBatch => exact h.of_table rfl

theorem Inv.disciplined (h : Inv p x) (ha : Alike p p') : Disciplined p' x where
  again kind t i ht := by
    obtain ⟨hlive, hrange⟩ := h.returned kind t i ht
    refine push_of_live ?_ hlive
    rw [InRange, ha.1]
    exact hrange
  same kind t i j hi hj := by
    have hlive := (h.returned kind t i hi).1.1
    rw [(h.returned kind t j hj).1.1] at hlive
    exact (Option.some.inj hlive).symm
  distinct kind t u i ht hu := by
    obtain ⟨hlive, hne⟩ := (h.returned kind t i ht).1
    exact (h.indexed kind).injective t u i hlive (h.returned kind u i hu).1.1 hne
  below kind t i ht := by
    obtain ⟨hlive, hne⟩ := (h.returned kind t i ht).1
    exact (h.indexed kind).bounded t i hlive hne
  ordered kind idx hidx := by
    rw [ha.2]
    exact (h.indexed kind).grounded idx hidx
  sample t i ht hactive := by
    obtain ⟨hlive, hne⟩ := (h.returned .signal t i ht).1
    obtain ⟨hnonneg, hlt⟩ := (h.indexed .signal).bounded t i hlive hne
    obtain ⟨idx, rfl⟩ : ∃ idx : ℕ, i = idx := ⟨i.toNat, by omega⟩
    obtain ⟨hends, hraises⟩ := sampleFrom_spec (p := p') (s := x.pio)
      (ha.2.symm ▸ h.indexed .signal) hactive (by omega : idx < _)
    have hsample : p'.sample x.pio idx = p'.sampleFrom x.pio (idx + 1) idx :=
      hends _ (by omega)
    rw [hsample]
    exact ⟨fun depth hdepth => hends depth (by omega), hraises⟩
  adjust t i q ht := by
    obtain ⟨hlive, hne⟩ := (h.returned .control t i ht).1
    obtain ⟨hnonneg, hlt⟩ := (h.indexed .control).bounded t i hlive hne
    obtain ⟨idx, rfl⟩ : ∃ idx : ℕ, i = idx := ⟨i.toNat, by omega⟩
    unfold Platform.adjust
    rw [wp_bind, wp_get]
    refine wp_mono (wp_adjustFrom_spec (by omega) q (ha.2.symm ▸ h.indexed .control) (by omega))
      (fun _ _ _ => trivial) fun _ _ h => h.2

theorem inv_start (p : Platform S H) (groupState : ℕ → S) (hardware : ℕ → H) :
    Inv p (start groupState hardware) where
  indexed kind := by
    refine ⟨fun t i ht => ?_, fun t u i ht => ?_, fun idx hidx => ?_⟩
    · exact absurd ht.symm (Option.some_ne_none i)
    · exact absurd ht.symm (Option.some_ne_none i)
    · exact absurd hidx (Nat.not_lt_zero idx)
  returned kind t i ht := absurd ht not_mem_nil

/-- **The indices that pushes return**: after every sequence of calls, whatever the IOGroups answer
in each of them. -/
theorem disciplined_of_reachable {groupState : ℕ → S} {hardware : ℕ → H}
    (h : (Lts.ofFun next).ReachableIf (fun _ l => Alike p l.1) (start groupState hardware) x)
    (ha : Alike p p') : Disciplined p' x := by
  have hinv : Inv p x := h.invariant (inv_start p groupState hardware)
    fun y l y' hy hl hstep => hstep ▸ hy.next hl
  exact hinv.disciplined ha

/-- One IOGroup on a board with two packages; it does not read those of the packages `noRead`. -/
def oneGroup (noRead : List ℤ) : Platform IOGroup.Slots (Request → Value) where
  topo := Client.twoPackages
  iogroupList := [
    .ofRegisters 1 .sum (fun t =>
      if t.domainIdx ∈ noRead then some ⟨"read_signal(): no register", [], .runtime⟩ else none)
      fun _ => none]

/-- The second package cannot be read at first, so that the push raises half way. -/
def secondTry : List (Platform IOGroup.Slots (Request → Value) × Call) := [
  (oneGroup [1], .push .control Client.boardPowerLimit),
  (oneGroup [], .push .control Client.boardPowerLimit),
  (oneGroup [], .adjust 2 (some 100))]

theorem disciplined_secondTry :
    (secondTry.foldl next (start (fun _ => {}) Client.registers)).returned =
        [(.control, Client.boardPowerLimit, 2)] ∧
      Disciplined (oneGroup []) (secondTry.foldl next (start (fun _ => {}) Client.registers)) := by
  refine ⟨by decide +kernel, ?_⟩
  have hrun : (Lts.ofFun next).ReachableIf (fun _ l => Alike (oneGroup []) l.1) _ _ :=
    Lts.reachableIf_of_along
      (show Lts.Along _ next (start (fun _ => {}) Client.registers) secondTry from
        ⟨⟨rfl, rfl⟩, ⟨rfl, rfl⟩, ⟨rfl, rfl⟩, trivial⟩)
  exact disciplined_of_reachable hrun ⟨rfl, rfl⟩

end History

end Geopm.Pio
