import Geopm.Pio.PlatformIO

/-!
# What has been pushed stays pushed

A pushed signal or control keeps its index, and what the index stands for, while other signals and
controls are pushed.

* `Platform.server` : the IOGroup that the immediate method uses at the native domain;
* `Platform.chosen` : the IOGroup that a request is pushed to;
* `Platform.Extends` : nothing that has been pushed is lost;
* `Platform.Entry` : the index of a request stands for the IOGroups that the immediate method uses;
* `Platform.Routed` : the condition under which a request is pushed to them;
* `Platform.wp_push` : under it, a push gives the request an index with such an entry.
-/

namespace Geopm.Pio

open Prog
open Function (update update_self update_of_ne)
open List hiding set

namespace IOGroup

variable {S H : Type} (g : IOGroup S H)

/-- Nothing that has been pushed or adjusted is lost. -/
def Keeps (s s' : S) : Prop := Kept g.signalPushed g.controlPushed g.pending s s'

/-- The signal or control has been pushed and has the index. -/
def isPushed (kind : Kind) : S → Request → ℤ → Prop :=
  match kind with
  | .signal => g.signalPushed
  | .control => g.controlPushed

/-- What the immediate method raises, if it does. -/
def methodError (kind : Kind) : Request → Option Exception :=
  match kind with
  | .signal => g.readError
  | .control => g.writeError

variable {g} {s s' s'' : S} {kind : Kind} {t : Request} {i : ℤ}

theorem Keeps.refl (s : S) : g.Keeps s s := ⟨fun _ _ h => h, fun _ _ h => h, rfl⟩

theorem Keeps.trans (h : g.Keeps s s') (h' : g.Keeps s' s'') : g.Keeps s s'' :=
  ⟨fun t i ht => h'.1 t i (h.1 t i ht), fun t i ht => h'.2.1 t i (h.2.1 t i ht),
    h'.2.2.trans h.2.2⟩

theorem Keeps.isPushed (h : g.Keeps s s') (ht : g.isPushed kind s t i) : g.isPushed kind s' t i := by
  cases kind with
  | signal => exact h.1 t i ht
  | control => exact h.2.1 t i ht

theorem wp_groupPush (kind : Kind) (g : IOGroup S H) (t : Request) (s : S) :
    wp (Platform.groupPush kind g t) (fun i s' => g.isPushed kind s' t i ∧ g.Keeps s s')
      (fun _ s' => g.Keeps s s') s := by
  cases kind with
  | signal => exact g.pushSignal_spec t s
  | control => exact g.pushControl_spec t s

end IOGroup

namespace Platform

open PlatformIOImp

variable {S H : Type} (p : Platform S H)

/-! ### The choice of an IOGroup -/

/-- The IOGroup that the immediate method uses for a request at the native domain. -/
def server (kind : Kind) (t : Request) : Option (IOGroup S H × ℕ) :=
  (p.findIogroup kind t.name).find? fun g => (g.1.methodError kind t).isNone

/-- What keeps the IOGroup from being used, when the name has been pushed before or not. -/
def objection (kind : Kind) (named : Bool) (g : IOGroup S H) (t : Request) : Option Exception :=
  match kind with
  | .signal => if named then none else (g.readError t).bind refusal
  | .control => (g.readError t).elim ((g.writeError t).bind refusal) refusal

/-- The IOGroup that a request at the native domain is pushed to. -/
def chosen (kind : Kind) (named : Bool) (t : Request) : Option (IOGroup S H × ℕ) :=
  (p.findIogroup kind t.name).find? fun g => (objection kind named g.1 t).isNone

/-- The request is pushed to the IOGroup that the immediate method uses. -/
def Routed (kind : Kind) (named : Bool) (t : Request) : Prop :=
  ∀ g, p.chosen kind named t = some g → p.server kind t = some g

/-- Of the requests, the new ones are pushed to the IOGroups that the immediate method uses.  The
name is known once the first one has been pushed. -/
def RoutedAll (kind : Kind) (new : Request → Prop) : Bool → List Request → Prop
  | _, [] => True
  | named, t :: ts =>
    (new t → p.Routed kind named t ∧ RoutedAll kind new true ts) ∧
      (¬ new t → RoutedAll kind new named ts)

/-- The request has an index. -/
def Live (kind : Kind) (s : PlatformIOImp S H) (t : Request) (i : ℤ) : Prop :=
  (s.table kind).existing t = some i ∧ i ≠ -1

/-- The requests at the native domain that a request consists of. -/
def natives (kind : Kind) (t : Request) : List Request :=
  if t.domainType = p.nativeDomain kind t.name then [t] else p.nested kind t

/-- What a push of the request has to meet: what it pushes at the native domain for the first time
goes to the IOGroups that the immediate method uses. -/
def PushRouted (kind : Kind) (s : PlatformIOImp S H) (t : Request) : Prop :=
  p.RoutedAll kind (fun u => ∀ i, ¬ Live kind s u i) (s.pushedSignalNames t.name)
    (p.natives kind t)

/-- The checks of `checkRange`. -/
def InRange (t : Request) : Prop :=
  (0 ≤ t.domainType ∧ t.domainType < numDomainType) ∧
    0 ≤ t.domainIdx ∧ t.domainIdx < p.topo.numDomain t.domainType

variable {p} {kind : Kind} {t : Request} {i : ℤ} {s s' s'' : PlatformIOImp S H}

theorem checkRange_of_inRange (h : p.InRange t) (method : String) :
    p.checkRange method t = .ok () := by
  obtain ⟨⟨h₁, h₂⟩, h₃, h₄⟩ := h
  unfold checkRange
  rw [if_neg (by omega), if_neg (by omega)]

theorem wp_checkRange {σ : Type} {s : σ} {method : String} {Q : Unit → σ → Prop}
    {E : Exception → σ → Prop} (hQ : p.InRange t → Q () s) (hE : ∀ e, E e s) :
    wp (ret (p.checkRange method t)) Q E s := by
  unfold checkRange
  split_ifs with hType hIdx
  · exact hE _
  · exact hE _
  · exact hQ ⟨by omega, by omega⟩

theorem mem_findIogroup_of_server {g : IOGroup S H × ℕ} (h : p.server kind t = some g) :
    g ∈ p.findIogroup kind t.name ∧ g.1.methodError kind t = none := by
  have hnone := find?_some (p := fun g : IOGroup S H × ℕ => (g.1.methodError kind t).isNone) h
  exact ⟨mem_of_find?_eq_some h, Option.isNone_iff_eq_none.mp hnone⟩

/-- What `push_signal` and `push_control` ask a native IOGroup. -/
theorem wp_probe (g : IOGroup S H) (k : ℕ) {E : Exception → PlatformIOImp S H → Prop}
    {Q : Option Exception → PlatformIOImp S H → Prop}
    (hQ : ∀ hw, Q (objection kind (s.pushedSignalNames t.name) g t) { s with hardware := hw }) :
    wp (probe kind g k t) Q E s := by
  unfold probe
  rw [wp_bind, wp_get]
  unfold objection IOGroup.readSignal IOGroup.writeControl at *
  cases kind with
  | signal =>
    dsimp only at hQ ⊢
    cases hnamed : s.pushedSignalNames t.name with
    | true =>
      rw [hnamed] at hQ
      exact hQ s.hardware
    | false =>
      rw [hnamed] at hQ
      cases hread : g.readError t <;> rw [hread] at hQ <;> exact hQ s.hardware
  | control =>
    dsimp only at hQ ⊢
    cases hread : g.readError t with
    | some e => rw [hread] at hQ; exact hQ s.hardware
    | none =>
      rw [hread] at hQ
      cases hwrite : g.writeError t with
      | some e => rw [hwrite] at hQ; exact hQ s.hardware
      | none =>
        rw [hwrite] at hQ
        exact hQ _

/-! ### Nothing is lost -/

variable (p) in
/-- What has been pushed is still there, and only the table of the kind has changed. -/
structure Extends (kind : Kind) (s s' : PlatformIOImp S H) : Prop where
  active : (s.table kind).active <+: (s'.table kind).active
  combined : ∀ i : ℤ, i < (s.table kind).active.length →
    (s'.table kind).combined i = (s.table kind).combined i
  existing : ∀ t i, Live kind s t i → Live kind s' t i
  others : ∀ kind', kind' ≠ kind → s'.table kind' = s.table kind'
  groups : ∀ (k : ℕ) (g : IOGroup S H), p.iogroupList[k]? = some g →
    g.Keeps (s.groupState k) (s'.groupState k)
  names : ∀ name, s.pushedSignalNames name = true → s'.pushedSignalNames name = true

theorem Extends.refl (s : PlatformIOImp S H) : p.Extends kind s s where
  active := prefix_rfl
  combined _ _ := rfl
  existing _ _ h := h
  others _ _ := rfl
  groups _ _ _ := IOGroup.Keeps.refl _
  names _ h := h

theorem Extends.trans (h : p.Extends kind s s') (h' : p.Extends kind s' s'') :
    p.Extends kind s s'' where
  active := h.active.trans h'.active
  combined i hi := by
    have hi' : i < (s'.table kind).active.length := by
      have := h.active.length_le
      omega
    rw [h'.combined i hi', h.combined i hi]
  existing t i ht := h'.existing t i (h.existing t i ht)
  others kind' hne := (h'.others kind' hne).trans (h.others kind' hne)
  groups k g hg := (h.groups k g hg).trans (h'.groups k g hg)
  names name hname := h'.names name (h.names name hname)

/-- Only the hardware and the state of one IOGroup have changed. -/
theorem Extends.of_group {k : ℕ} {gs : S} {hw : ℕ → H}
    (hk : ∀ g, p.iogroupList[k]? = some g → g.Keeps (s.groupState k) gs) :
    p.Extends kind s { s with groupState := update s.groupState k gs, hardware := hw } where
  active := prefix_rfl
  combined _ _ := rfl
  existing _ _ h := h
  others _ _ := rfl
  groups k' g hg := by
    dsimp only
    by_cases hk' : k' = k
    · subst hk'
      rw [update_self]
      exact hk g hg
    · rw [update_of_ne hk']
      exact IOGroup.Keeps.refl _
  names _ h := h

theorem setTable_table_self (f : PushTable kind → PushTable kind) (s : PlatformIOImp S H) :
    (s.setTable kind f).table kind = f (s.table kind) :=
  update_self _ _ _

theorem Extends.of_setTable {f : PushTable kind → PushTable kind}
    (hactive : (s.table kind).active <+: (f (s.table kind)).active)
    (hcombined : ∀ i : ℤ, i < (s.table kind).active.length →
      (f (s.table kind)).combined i = (s.table kind).combined i)
    (hexisting : ∀ t i, (s.table kind).existing t = some i → i ≠ -1 →
      (f (s.table kind)).existing t = some i) :
    p.Extends kind s (s.setTable kind f) where
  active := by
    rw [setTable_table_self]
    exact hactive
  combined i hi := by
    rw [setTable_table_self]
    exact hcombined i hi
  existing t i ht := by
    rw [Live, setTable_table_self]
    exact ⟨hexisting t i ht.1 ht.2, ht.2⟩
  others kind' hne := update_of_ne hne _ _
  groups _ _ _ := IOGroup.Keeps.refl _
  names _ h := h

/-! ### What an index stands for -/

variable (p) in
/-- The index stands for the IOGroup that the immediate method uses. -/
structure NativeEntry (kind : Kind) (s : PlatformIOImp S H) (t : Request) (i : ℤ)
    (g : IOGroup S H) (k : ℕ) (groupIdx : ℤ) : Prop where
  inRange : p.InRange t
  native : t.domainType = p.nativeDomain kind t.name
  server : p.server kind t = some (g, k)
  nonneg : 0 ≤ i
  active : (s.table kind).active[i.toNat]? = some (some k, groupIdx)
  pushed : g.isPushed kind (s.groupState k) t groupIdx
  named : kind = .signal → s.pushedSignalNames t.name = true

variable (p) in
/-- The index stands for a combination of what is nested in the request. -/
structure CombinedEntry (kind : Kind) (s : PlatformIOImp S H) (t : Request) (i : ℤ)
    (operandIdx : List ℤ) (c : Combiner kind) : Prop where
  inRange : p.InRange t
  convert : t.domainType ≠ p.nativeDomain kind t.name
  found : p.findIogroup kind t.name ≠ []
  isNested : p.topo.isNestedDomain (p.nativeDomain kind t.name) t.domainType = true
  nonneg : 0 ≤ i
  active : (s.table kind).active[i.toNat]? = some (none, i)
  combined : (s.table kind).combined i = some (operandIdx, c)
  combiner : p.combiner t.name operandIdx.length kind = .ok c
  operands : List.Forall₂ (fun u j => ∃ g k gi, p.NativeEntry kind s u j g k gi)
    (p.nested kind t) operandIdx

variable (p) in
/-- The index stands for what the immediate method does. -/
def Entry (kind : Kind) (s : PlatformIOImp S H) (t : Request) (i : ℤ) : Prop :=
  (∃ g k groupIdx, p.NativeEntry kind s t i g k groupIdx) ∨
    ∃ operandIdx c, p.CombinedEntry kind s t i operandIdx c

variable (p) in
/-- Every index that has been given stands for what the immediate method does. -/
def Inv (kind : Kind) (s : PlatformIOImp S H) : Prop := ∀ t i, Live kind s t i → p.Entry kind s t i

/-- What an index stands for depends on the table, on the states of the IOGroups and on the names
that have been pushed. -/
structure Upgrade (p : Platform S H) (kind : Kind) (s s' : PlatformIOImp S H) : Prop where
  active : (s.table kind).active <+: (s'.table kind).active
  combined : ∀ i : ℤ, i < (s.table kind).active.length →
    (s'.table kind).combined i = (s.table kind).combined i
  groups : ∀ (k : ℕ) (g : IOGroup S H), p.iogroupList[k]? = some g →
    ∀ t i, g.isPushed kind (s.groupState k) t i → g.isPushed kind (s'.groupState k) t i
  names : ∀ name, s.pushedSignalNames name = true → s'.pushedSignalNames name = true

theorem Extends.upgrade {kind' : Kind} (h : p.Extends kind' s s') : Upgrade p kind s s' := by
  have hgroups : ∀ (k : ℕ) (g : IOGroup S H), p.iogroupList[k]? = some g →
      ∀ t i, g.isPushed kind (s.groupState k) t i → g.isPushed kind (s'.groupState k) t i :=
    fun k g hg _ _ => (h.groups k g hg).isPushed
  by_cases hk : kind = kind'
  · subst hk
    exact ⟨h.active, h.combined, hgroups, h.names⟩
  · have htable := h.others kind hk
    exact ⟨htable ▸ prefix_rfl, fun _ _ => by rw [htable], hgroups, h.names⟩

theorem getElem?_of_prefix {α : Type} {xs ys : List α} {n : ℕ} {a : α} (h : xs <+: ys)
    (hxs : xs[n]? = some a) : ys[n]? = some a := by
  obtain ⟨hn, rfl⟩ := List.getElem?_eq_some_iff.mp hxs
  exact prefix_iff_getElem?.mp h n hn

theorem NativeEntry.upgrade {g : IOGroup S H} {k : ℕ} {gi : ℤ} (hu : Upgrade p kind s s')
    (h : p.NativeEntry kind s t i g k gi) : p.NativeEntry kind s' t i g k gi where
  inRange := h.inRange
  native := h.native
  server := h.server
  nonneg := h.nonneg
  active := getElem?_of_prefix hu.active h.active
  pushed := by
    have hmem := (mem_findIogroup_of_server h.server).1
    exact hu.groups k g (mem_findIogroup hmem).1 t gi h.pushed
  named hk := hu.names _ (h.named hk)

theorem CombinedEntry.upgrade {ops : List ℤ} {c : Combiner kind} (hu : Upgrade p kind s s')
    (h : p.CombinedEntry kind s t i ops c) : p.CombinedEntry kind s' t i ops c where
  inRange := h.inRange
  convert := h.convert
  found := h.found
  isNested := h.isNested
  nonneg := h.nonneg
  active := getElem?_of_prefix hu.active h.active
  combined := by
    have hlt := (List.getElem?_eq_some_iff.mp h.active).1
    have hnonneg := h.nonneg
    rw [hu.combined i (by omega)]
    exact h.combined
  combiner := h.combiner
  operands := h.operands.imp fun _ _ ⟨g, k, gi, hg⟩ => ⟨g, k, gi, hg.upgrade hu⟩

theorem Entry.upgrade (hu : Upgrade p kind s s') (h : p.Entry kind s t i) :
    p.Entry kind s' t i := by
  obtain ⟨g, k, gi, h⟩ | ⟨ops, c, h⟩ := h
  · exact Or.inl ⟨g, k, gi, h.upgrade hu⟩
  · exact Or.inr ⟨ops, c, h.upgrade hu⟩

/-! ### A push -/

variable (p) in
/-- What a push leaves behind: only the requests of `ts` may have been given an index. -/
structure Pushed (kind : Kind) (ts : List Request) (s s' : PlatformIOImp S H) : Prop where
  «extends» : p.Extends kind s s'
  inv : p.Inv kind s'
  only : ∀ u, u ∉ ts → (s'.table kind).existing u = (s.table kind).existing u

theorem Pushed.refl {ts : List Request} (hinv : p.Inv kind s) : p.Pushed kind ts s s :=
  ⟨.refl s, hinv, fun _ _ => rfl⟩

theorem Pushed.trans {ts ts' : List Request} (h : p.Pushed kind ts s s')
    (h' : p.Pushed kind ts' s' s'') : p.Pushed kind (ts ++ ts') s s'' where
  «extends» := h.extends.trans h'.extends
  inv := h'.inv
  only u hu := by
    rw [mem_append, not_or] at hu
    rw [h'.only u hu.2, h.only u hu.1]

theorem Pushed.mono {ts ts' : List Request} (h : p.Pushed kind ts s s') (hts : ts ⊆ ts') :
    p.Pushed kind ts' s s' :=
  ⟨h.extends, h.inv, fun u hu => h.only u fun hmem => hu (hts hmem)⟩

/-- No request is given an index. -/
theorem Pushed.of_same (hinv : p.Inv kind s) (h : p.Extends kind s s')
    (hexisting : (s'.table kind).existing = (s.table kind).existing) :
    p.Pushed kind [] s s' where
  «extends» := h
  inv t i ht := by
    rw [Live, hexisting] at ht
    exact (hinv t i ht).upgrade h.upgrade
  only u _ := by rw [hexisting]

theorem Pushed.of_entry (result : ℤ) (hinv : p.Inv kind s) (h : p.Extends kind s s')
    (hexisting : (s'.table kind).existing =
      update (s.table kind).existing t (some result))
    (hentry : result ≠ -1 → p.Entry kind s' t result) : p.Pushed kind [t] s s' where
  «extends» := h
  inv u i hu := by
    rw [Live, hexisting] at hu
    by_cases ht : u = t
    · subst ht
      rw [update_self, Option.some.injEq] at hu
      obtain ⟨rfl, hne⟩ := hu
      exact hentry hne
    · rw [update_of_ne ht] at hu
      exact (hinv u i hu).upgrade h.upgrade
  only u hu := by
    rw [hexisting, update_of_ne (ne_of_not_mem_cons hu)]

theorem Extends.of_names {names : String → Bool}
    (h : ∀ name, s.pushedSignalNames name = true → names name = true) :
    p.Extends kind s { s with pushedSignalNames := names } where
  active := prefix_rfl
  combined _ _ := rfl
  existing _ _ h := h
  others _ _ := rfl
  groups _ _ _ := IOGroup.Keeps.refl _
  names := h

theorem Extends.of_hardware (hw : ℕ → H) : p.Extends kind s { s with hardware := hw } where
  active := prefix_rfl
  combined _ _ := rfl
  existing _ _ h := h
  others _ _ := rfl
  groups _ _ _ := IOGroup.Keeps.refl _
  names _ h := h

/-- A request at the native domain is given an index of the IOGroup. -/
theorem wp_pushNative {g : IOGroup S H} {k : ℕ} (hinv : p.Inv kind s) (hrange : p.InRange t)
    (hnative : t.domainType = p.nativeDomain kind t.name) (hserver : p.server kind t = some (g, k))
    (hnew : ∀ i, ¬ Live kind s t i) :
    wp (pushNative kind g k t)
      (fun i s' => p.Pushed kind [t] s s' ∧ Live kind s' t i)
      (fun _ s' => p.Pushed kind [t] s s') s := by
  have hgroup : ∀ g' : IOGroup S H, p.iogroupList[k]? = some g' → g' = g := by
    intro g' hg'
    rw [(mem_findIogroup (mem_findIogroup_of_server hserver).1).1] at hg'
    exact (Option.some.inj hg').symm
  unfold pushNative onGroup
  rw [wp_bind, wp_zoom]
  refine wp_mono (IOGroup.wp_groupPush kind g t (s.groupState k)) ?_ ?_
  · rintro gi gs ⟨hpushed, hkeeps⟩
    set s₁ : PlatformIOImp S H := { s with groupState := update s.groupState k gs } with hs₁
    have h₁ : p.Extends kind s s₁ := Extends.of_group fun g' hg' => hgroup g' hg' ▸ hkeeps
    rw [wp_bind, wp_get, wp_bind, wp_set, wp_pure]
    set f : PushTable kind → PushTable kind := fun table => { table with
      existing := update table.existing t (some ((s₁.table kind).active.length : ℤ))
      active := table.active ++ [(some k, gi)] } with hf
    have h₂ : p.Extends kind s₁ (s₁.setTable kind f) := by
      refine Extends.of_setTable (prefix_append _ _) (fun _ _ => rfl) fun u i hu hi => ?_
      have hne : u ≠ t := by
        rintro rfl
        exact hnew i ⟨hu, hi⟩
      exact (update_of_ne hne _ _).trans hu
    have h₃ : p.Extends kind (s₁.setTable kind f) { s₁.setTable kind f with
        pushedSignalNames :=
          if kind = Kind.signal then update s₁.pushedSignalNames t.name true
          else s₁.pushedSignalNames } := by
      refine Extends.of_names fun name hname => ?_
      split_ifs
      · by_cases hn : name = t.name
        · rw [hn, update_self]
        · rw [update_of_ne hn]
          exact hname
      · exact hname
    have htable := setTable_table_self f s₁
    refine ⟨Pushed.of_entry ((s₁.table kind).active.length : ℤ) hinv ((h₁.trans h₂).trans h₃) ?_
      fun _ => Or.inl ⟨g, k, gi, ?_⟩, ?_, ?_⟩
    · exact congrArg PushTable.existing htable
    · refine ⟨hrange, hnative, hserver, Int.natCast_nonneg _, ?_, ?_, fun hk => ?_⟩
      · change ((s₁.setTable kind f).table kind).active[_]? = _
        rw [htable, Int.toNat_natCast]
        exact getElem?_concat_length
      · change g.isPushed kind (update s.groupState k gs k) t gi
        rw [update_self]
        exact hpushed
      · dsimp only
        rw [if_pos hk, update_self]
    · change ((s₁.setTable kind f).table kind).existing t = _
      rw [htable]
      exact update_self _ _ _
    · omega
  · intro e gs hkeeps
    have h : p.Extends kind s { s with groupState := update s.groupState k gs } :=
      Extends.of_group fun g' hg' => hgroup g' hg' ▸ hkeeps
    exact (Pushed.of_same hinv h rfl).mono (nil_subset _)

variable {push : Request → Method S H ℤ} {gs : List (IOGroup S H × ℕ)} {errs : List Exception}

theorem wp_pushLoop_native     (hinv : p.Inv kind s) (hrange : p.InRange t)
    (hnative : t.domainType = p.nativeDomain kind t.name) (hnew : ∀ i, ¬ Live kind s t i)
    (hgs : ∀ g ∈ gs, g ∈ p.findIogroup kind t.name)
    (hrouted : ∀ g, (gs.find? fun g =>
      (objection kind (s.pushedSignalNames t.name) g.1 t).isNone) = some g →
        p.server kind t = some g) :
    wp (p.pushLoop kind push t gs errs)
      (fun r s' => p.Pushed kind [t] s s' ∧ (r.1 ≠ -1 → Live kind s' t r.1))
      (fun _ s' => p.Pushed kind [t] s s') s := by
  induction gs generalizing s errs with
  | nil => exact ⟨.refl hinv, fun h => absurd rfl h⟩
  | cons g gs ih =>
    have hdomain := (mem_findIogroup (hgs g mem_cons_self)).2.2
    rw [pushLoop, if_pos (hnative.trans hdomain.symm), wp_bind]
    refine wp_probe g.1 g.2 fun hw => ?_
    set s₁ : PlatformIOImp S H := { s with hardware := hw }
    have h₁ : p.Pushed kind [t] s s₁ :=
      (Pushed.of_same hinv (Extends.of_hardware hw) rfl).mono (nil_subset _)
    have hnames : s₁.pushedSignalNames t.name = s.pushedSignalNames t.name := rfl
    have hthen : ∀ s', p.Pushed kind [t] s₁ s' → p.Pushed kind [t] s s' :=
      fun s' h => (h₁.trans h).mono (append_subset.mpr ⟨.refl _, .refl _⟩)
    cases hobj : objection kind (s.pushedSignalNames t.name) g.1 t with
    | none =>
      have hserver := hrouted g (by rw [find?_cons, hobj]; rfl)
      dsimp only
      rw [wp_bind]
      refine wp_mono (wp_pushNative h₁.inv hrange hnative hserver hnew) ?_ fun _ s' h => hthen s' h
      rintro i s' ⟨h, hlive⟩
      rw [wp_pure]
      exact ⟨hthen s' h, fun _ => hlive⟩
    | some e =>
      refine wp_mono (ih h₁.inv hnew (fun g' hg' => hgs g' (mem_cons_of_mem _ hg')) ?_) ?_
        fun _ s' h => hthen s' h
      · intro g' hg'
        refine hrouted g' ?_
        rw [find?_cons, hobj]
        exact hg'
      · rintro r s' ⟨h, hlive⟩
        exact ⟨hthen s' h, hlive⟩

/-- A push gives the request an index when the loop over the IOGroups does, unless it has one. -/
theorem wp_pushWith {ts : List Request} (hinv : p.Inv kind s)
    (hloop : p.InRange t → (∀ i, ¬ Live kind s t i) →
      wp (p.pushLoop kind push t (p.findIogroup kind t.name) [])
        (fun r s' => p.Pushed kind ts s s' ∧ (r.1 ≠ -1 → Live kind s' t r.1))
        (fun _ s' => p.Pushed kind ts s s') s) :
    wp (p.pushWith kind push t) (fun i s' => p.Pushed kind ts s s' ∧ Live kind s' t i)
      (fun _ s' => p.Pushed kind ts s s') s := by
  unfold pushWith
  rw [wp_bind]
  refine wp_checkRange (fun hrange => ?_) fun _ => .refl hinv
  rw [wp_bind, wp_get, wp_ite]
  refine ⟨fun hi => ?_, fun hi => ?_⟩
  · rw [wp_pure]
    refine ⟨.refl hinv, ?_, hi⟩
    cases hexisting : (s.table kind).existing t with
    | none => rw [hexisting] at hi; exact absurd rfl hi
    | some i => rfl
  · have hnew : ∀ i, ¬ Live kind s t i := by
      rintro i ⟨hexisting, hne⟩
      rw [hexisting] at hi
      exact hi hne
    unfold pushNew
    rw [wp_bind, wp_get, wp_ite]
    refine ⟨fun _ => .refl hinv, fun _ => ?_⟩
    rw [wp_bind]
    refine wp_mono (hloop hrange hnew) ?_ fun _ _ h => h
    rintro r s' ⟨h, hlive⟩
    rw [wp_ite]
    exact ⟨fun _ => h, fun hne => ⟨h, hlive hne⟩⟩

theorem wp_push_native (hinv : p.Inv kind s)
    (hnative : t.domainType = p.nativeDomain kind t.name)
    (hrouted : (∀ i, ¬ Live kind s t i) → p.Routed kind (s.pushedSignalNames t.name) t) :
    wp (p.pushWith kind push t) (fun i s' => p.Pushed kind [t] s s' ∧ Live kind s' t i)
      (fun _ s' => p.Pushed kind [t] s s') s :=
  wp_pushWith hinv fun hrange hnew =>
    wp_pushLoop_native hinv hrange hnative hnew (fun _ hg => hg) (hrouted hnew)

theorem native_of_live (hinv : p.Inv kind s) (hnative : t.domainType = p.nativeDomain kind t.name)
    (h : Live kind s t i) : ∃ g k gi, p.NativeEntry kind s t i g k gi := by
  obtain h | ⟨ops, c, h⟩ := hinv t i h
  · exact h
  · exact absurd hnative h.convert

theorem Routed.of_named {named named' : Bool} (h : p.Routed kind named t)
    (hnamed : kind = .signal → named' = named) : p.Routed kind named' t := by
  cases kind with
  | signal => rw [hnamed rfl]; exact h
  | control => exact h

/-- Requests of one name, at its native domain. -/
theorem wp_pushAll {name : String} {new : Request → Prop} {us : List Request} {named : Bool}
    (hinv : p.Inv kind s)
    (hus : ∀ u ∈ us, u.name = name ∧ u.domainType = p.nativeDomain kind u.name)
    (hrouted : p.RoutedAll kind new named us)
    (hnew : ∀ u, (∀ i, ¬ Live kind s u i) → new u)
    (hnamed : kind = .signal → s.pushedSignalNames name = named) :
    wp (pushAll (p.push kind) us)
      (fun is s' => p.Pushed kind us s s' ∧ List.Forall₂ (Live kind s') us is)
      (fun _ s' => p.Pushed kind us s s') s := by
  induction us generalizing s named with
  | nil => exact ⟨.refl hinv, .nil⟩
  | cons u us ih =>
    obtain ⟨hname, hnative⟩ := hus u mem_cons_self
    have hrouted_u : (∀ i, ¬ Live kind s u i) → p.Routed kind (s.pushedSignalNames u.name) u :=
      fun h => (hrouted.1 (hnew u h)).1.of_named fun hk => hname ▸ hnamed hk
    rw [pushAll, wp_bind]
    refine wp_mono (wp_push_native hinv hnative hrouted_u) ?_
      fun _ s' h => h.mono (cons_subset_cons u (nil_subset us))
    rintro i s₁ ⟨h₁, hlive⟩
    have hnamed₁ : kind = .signal → s₁.pushedSignalNames name = true := by
      intro hk
      obtain ⟨g, k, gi, hentry⟩ := native_of_live h₁.inv hnative hlive
      exact hname ▸ hentry.named hk
    have hnew₁ : ∀ v, (∀ j, ¬ Live kind s₁ v j) → new v :=
      fun v hv => hnew v fun j hj => hv j (h₁.extends.existing v j hj)
    have hrest : ∃ named', p.RoutedAll kind new named' us ∧
        (kind = .signal → s₁.pushedSignalNames name = named') := by
      by_cases hu : new u
      · exact ⟨true, (hrouted.1 hu).2, hnamed₁⟩
      · -- The request had an index already, so that its name has been pushed before.
        obtain ⟨j, hj⟩ := not_forall_not.mp fun h => hu (hnew u h)
        obtain ⟨g, k, gi, hentry⟩ := native_of_live hinv hnative hj
        refine ⟨named, hrouted.2 hu, fun hk => ?_⟩
        rw [hnamed₁ hk, ← hnamed hk, ← hname, hentry.named hk]
    obtain ⟨named', hrouted', hnamed'⟩ := hrest
    have hthen : ∀ s', p.Pushed kind us s₁ s' → p.Pushed kind (u :: us) s s' :=
      fun s' h => h₁.trans h
    rw [wp_bind]
    refine wp_mono (ih h₁.inv (fun v hv => hus v (mem_cons_of_mem _ hv)) hrouted' hnew₁
      hnamed') ?_ fun _ s' h => hthen s' h
    rintro is s₂ ⟨h₂, hlives⟩
    rw [wp_pure]
    exact ⟨hthen s₂ h₂, .cons (h₂.extends.existing u i hlive) hlives⟩

theorem wp_pushCombined {ops : List ℤ} (hinv : p.Inv kind s) (hrange : p.InRange t)
    (hconvert : t.domainType ≠ p.nativeDomain kind t.name)
    (hfound : p.findIogroup kind t.name ≠ [])
    (hnested : p.topo.isNestedDomain (p.nativeDomain kind t.name) t.domainType = true)
    (hops : List.Forall₂ (Live kind s) (p.nested kind t) ops) :
    wp (p.pushCombined kind t.name ops)
      (fun i s' => p.Pushed kind [] s s' ∧ i ≠ -1 ∧ p.Entry kind s' t i)
      (fun _ s' => p.Pushed kind [] s s') s := by
  unfold pushCombined
  rw [wp_bind, wp_get, wp_bind]
  cases hc : p.combiner t.name ops.length kind with
  | error e => exact .refl hinv
  | ok c =>
    refine wp_ret rfl ?_
    rw [wp_bind, wp_modify, wp_pure]
    set result : ℤ := ((s.table kind).active.length : ℤ) with hresult
    set f : PushTable kind → PushTable kind := fun table => { table with
      combined := update table.combined result (some (ops, c))
      active := table.active ++ [(none, result)] }
    have hext : p.Extends kind s (s.setTable kind f) := by
      refine Extends.of_setTable (prefix_append _ _) (fun i hi => ?_) fun _ _ h _ => h
      exact update_of_ne (by omega) _ _
    have htable := setTable_table_self f s
    refine ⟨Pushed.of_same hinv hext (by rw [htable]), by omega, Or.inr ⟨ops, c, ?_⟩⟩
    refine ⟨hrange, hconvert, hfound, hnested, by omega, ?_, ?_, hc, ?_⟩
    · rw [htable, hresult, Int.toNat_natCast]
      exact getElem?_concat_length
    · rw [htable]
      exact update_self _ _ _
    · have hnative : ∀ u ∈ p.nested kind t, u.domainType = p.nativeDomain kind u.name :=
        fun u hu => (mem_nested hu).2
      have hentries : List.Forall₂ (fun u j => u ∈ p.nested kind t ∧ Live kind s u j)
          (p.nested kind t) ops := (forall₂_and_left _ _).mpr ⟨fun _ h => h, hops⟩
      refine hentries.imp fun u j ⟨hu, hj⟩ => ?_
      obtain ⟨g, k, gi, hentry⟩ := native_of_live hinv (hnative u hu) hj
      exact ⟨g, k, gi, hentry.upgrade hext.upgrade⟩

/-- A request is given an index, or none with `-1`. -/
theorem pushed_setExisting {result : ℤ} (hinv : p.Inv kind s) (hnew : ∀ i, ¬ Live kind s t i)
    (hentry : result ≠ -1 → p.Entry kind s t result) :
    p.Pushed kind [t] s (s.setTable kind fun table =>
      { table with existing := update table.existing t (some result) }) := by
  have hext : p.Extends kind s (s.setTable kind fun table =>
      { table with existing := update table.existing t (some result) }) := by
    refine Extends.of_setTable prefix_rfl (fun _ _ => rfl) fun u i hu hi => ?_
    have hne : u ≠ t := by
      rintro rfl
      exact hnew i ⟨hu, hi⟩
    exact (update_of_ne hne _ _).trans hu
  refine Pushed.of_entry result hinv hext ?_ fun hne => (hentry hne).upgrade hext.upgrade
  rw [setTable_table_self]

/-- The requests that a push of the request may give an index. -/
def touched (p : Platform S H) (kind : Kind) (t : Request) : List Request := t :: p.nested kind t

/-- A domain that the native one is not nested in is refused by every IOGroup. -/
theorem wp_pushLoop_refused     (hinv : p.Inv kind s)
    (hconvert : t.domainType ≠ p.nativeDomain kind t.name) (hnew : ∀ i, ¬ Live kind s t i)
    (hnested : ¬ p.topo.isNestedDomain (p.nativeDomain kind t.name) t.domainType = true)
    (hgs : ∀ g ∈ gs, g ∈ p.findIogroup kind t.name) :
    wp (p.pushLoop kind push t gs errs) (fun r s' => p.Pushed kind [t] s s' ∧ r.1 = -1)
      (fun _ _ => False) s := by
  induction gs generalizing s with
  | nil => exact ⟨.refl hinv, rfl⟩
  | cons g gs ih =>
    have hdomain := (mem_findIogroup (hgs g mem_cons_self)).2.2
    rw [pushLoop, if_neg fun h => hconvert (h.trans hdomain), pushConvertDomain, if_neg hnested,
      wp_bind, wp_pure, wp_bind, wp_modify, if_neg (not_not.mpr rfl)]
    have h₁ := pushed_setExisting hinv hnew fun h : (-1 : ℤ) ≠ -1 => absurd rfl h
    refine wp_mono (ih h₁.inv (fun i hi => ?_) fun g' hg' => hgs g' (mem_cons_of_mem _ hg')) ?_
      fun _ _ h => h
    · rw [Live, setTable_table_self] at hi
      obtain ⟨hexisting, hne⟩ := hi
      dsimp only at hexisting
      rw [update_self, Option.some.injEq] at hexisting
      exact hne hexisting.symm
    · rintro r s' ⟨h, hr⟩
      exact ⟨(h₁.trans h).mono (append_subset.mpr ⟨.refl _, .refl _⟩), hr⟩

/-- The loop over the IOGroups, for a request at another domain than the native one. -/
theorem wp_pushLoop_convert     (hinv : p.Inv kind s) (hrange : p.InRange t)
    (hconvert : t.domainType ≠ p.nativeDomain kind t.name) (hnew : ∀ i, ¬ Live kind s t i)
    (hrouted : p.PushRouted kind s t) (hgs : ∀ g ∈ gs, g ∈ p.findIogroup kind t.name) :
    wp (p.pushLoop kind (p.push kind) t gs errs)
      (fun r s' => p.Pushed kind (p.touched kind t) s s' ∧ (r.1 ≠ -1 → Live kind s' t r.1))
      (fun _ s' => p.Pushed kind (p.touched kind t) s s') s := by
  by_cases hnested : p.topo.isNestedDomain (p.nativeDomain kind t.name) t.domainType = true
  case neg =>
    refine wp_mono (wp_pushLoop_refused hinv hconvert hnew hnested hgs) ?_ fun _ _ h => h.elim
    rintro r s' ⟨h, hr⟩
    exact ⟨h.mono (cons_subset_cons t (nil_subset _)), fun hne => absurd hr hne⟩
  case pos =>
    cases gs with
    | nil => exact ⟨.refl hinv, fun h => absurd rfl h⟩
    | cons g gs =>
      have hg := hgs g mem_cons_self
      have hdomain := (mem_findIogroup hg).2.2
      unfold PushRouted natives at hrouted
      rw [if_neg hconvert] at hrouted
      rw [pushLoop, if_neg fun h => hconvert (h.trans hdomain), pushConvertDomain, if_pos hnested,
        wp_bind, wp_bind]
      have hall := wp_pushAll hinv (fun u hu => ?_) hrouted (fun u h => h) fun _ => rfl
      case refine_1 => exact ⟨(mem_nested hu).1, (mem_nested hu).2⟩
      have hsub : p.nested kind t ⊆ p.touched kind t := subset_cons_self _ _
      refine wp_mono hall ?_ fun _ s' h => h.mono hsub
      rintro ops s₁ ⟨h₁, hops⟩
      refine wp_mono (wp_pushCombined h₁.inv hrange hconvert (ne_nil_of_mem hg) hnested hops) ?_
        fun _ s' h => (h₁.trans h).mono (append_subset.mpr ⟨hsub, nil_subset _⟩)
      rintro i s₂ ⟨h₂, hne, hentry⟩
      have h₁₂ := h₁.trans h₂
      have hnew₂ : ∀ j, ¬ Live kind s₂ t j := by
        intro j hj
        refine hnew j ?_
        have hmem : t ∉ p.nested kind t ++ [] := by
          rw [append_nil]
          exact fun hmem => hconvert (mem_nested hmem).2
        rw [Live, h₁₂.only t hmem] at hj
        exact hj
      have h₃ := pushed_setExisting h₂.inv hnew₂ fun _ : i ≠ -1 => hentry
      rw [wp_bind, wp_modify, if_pos hne, wp_pure]
      refine ⟨(h₁₂.trans h₃).mono ?_, fun _ => ⟨?_, hne⟩⟩
      · rw [append_nil]
        exact append_subset.mpr ⟨hsub, cons_subset_cons t (nil_subset _)⟩
      · rw [setTable_table_self]
        exact update_self _ _ _

/-- **A push gives the request an index that stands for what the immediate method does**, and keeps
the indices that have been given before. -/
theorem wp_push (hinv : p.Inv kind s) (hrouted : p.PushRouted kind s t) :
    wp (p.push kind t)
      (fun i s' => p.Pushed kind (p.touched kind t) s s' ∧ Live kind s' t i)
      (fun _ s' => p.Pushed kind (p.touched kind t) s s') s := by
  rw [push_eq]
  by_cases hnative : t.domainType = p.nativeDomain kind t.name
  · have hsub : [t] ⊆ p.touched kind t := cons_subset_cons t (nil_subset _)
    unfold PushRouted natives at hrouted
    rw [if_pos hnative] at hrouted
    refine wp_mono (wp_push_native hinv hnative fun h => (hrouted.1 h).1) ?_ fun _ _ h => h.mono hsub
    exact fun _ _ h => ⟨h.1.mono hsub, h.2⟩
  · exact wp_pushWith hinv fun hrange hnew =>
      wp_pushLoop_convert hinv hrange hnative hnew hrouted fun _ hg => hg

end Platform

end Geopm.Pio
