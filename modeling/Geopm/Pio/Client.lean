import Geopm.Lib.Lts
import Geopm.Pio.Push

/-!
# Clients of `PlatformIO`

* `Client` : what has been pushed, with the indices;
* `Client.next` : a push, a batch read or a change of the hardware;
* `Client.inv_of_reachable` : in every run whose pushes are routed, the indices stand for what the
  immediate methods do.

The section on two IOGroups has a platform on which a request falls back to an earlier IOGroup.
-/

namespace Geopm.Pio

open Prog

namespace Platform

open PlatformIOImp

variable {S H : Type} {p : Platform S H} {s s' : PlatformIOImp S H}

/-! ### What keeps what the indices stand for -/

theorem Inv.of_table {kind : Kind} (hinv : p.Inv kind s) (htable : s'.table = s.table)
    (hnames : s'.pushedSignalNames = s.pushedSignalNames)
    (hgroups : ∀ (k : ℕ) (g : IOGroup S H), p.iogroupList[k]? = some g →
      g.Keeps (s.groupState k) (s'.groupState k)) : p.Inv kind s' := by
  intro t i ht
  rw [Live, htable] at ht
  refine (hinv t i ht).upgrade ⟨?_, fun _ _ => ?_, fun k g hg _ _ => (hgroups k g hg).isPushed, ?_⟩
  · exact htable ▸ List.prefix_rfl
  · rw [htable]
  · rw [hnames]
    exact fun _ h => h

theorem readBatch_groupState {g : IOGroup S H} {k : ℕ} (hg : p.iogroupList[k]? = some g) :
    (p.readBatch s).groupState k = g.readBatch (s.hardware k) (s.groupState k) := by
  unfold Platform.readBatch
  dsimp only
  rw [hg]

theorem Inv.readBatch {kind : Kind} (hinv : p.Inv kind s) : p.Inv kind (p.readBatch s) := by
  refine hinv.of_table rfl rfl fun k g hg => ?_
  rw [readBatch_groupState hg]
  exact (g.readBatch_spec (s.hardware k) (s.groupState k)).1

end Platform

/-! ### A client -/

/-- A client: the requests that it has pushed, with their indices. -/
structure Client (S H : Type) where
  pio : PlatformIOImp S H
  pushed : List (Request × ℤ) := []

namespace Client

open Platform

variable {S H : Type} (p : Platform S H) (kind : Kind)

/-- What happens: a push, a batch read, a change of the hardware. -/
inductive Call (H : Type) where
  | push (t : Request)
  | readBatch
  | hardware (hw : ℕ → H)

/-- A push that raises leaves what it has done so far. -/
def next (x : Client S H) : Call H → Client S H
  | .push t =>
    match p.push kind t x.pio with
    | .ok i pio => { pio := pio, pushed := x.pushed ++ [(t, i)] }
    | .error _ pio => { x with pio := pio }
  | .readBatch => { x with pio := p.readBatch x.pio }
  | .hardware hw => { x with pio := { x.pio with hardware := hw } }

/-- The start of a client. -/
def start (groupState : ℕ → S) (hardware : ℕ → H) : Client S H where
  pio := { groupState := groupState, hardware := hardware }

/-- What a push gives to an IOGroup goes to the one that the immediate method uses. -/
def Routed (x : Client S H) : Call H → Prop
  | .push t => p.PushRouted kind x.pio t
  | _ => True

/-- The indices of the client stand for what the immediate methods do, and the IOGroups have lost
nothing since the start. -/
structure Inv (groupState : ℕ → S) (x : Client S H) : Prop where
  pio : p.Inv kind x.pio
  pushed : ∀ t i, (t, i) ∈ x.pushed → Live kind x.pio t i
  groups : ∀ (k : ℕ) (g : IOGroup S H), p.iogroupList[k]? = some g →
    g.Keeps (groupState k) (x.pio.groupState k)

variable {p kind} {groupState : ℕ → S}

theorem Inv.next {x : Client S H} {c : Call H} (h : Inv p kind groupState x)
    (hc : Routed p kind x c) : Inv p kind groupState (next p kind x c) := by
  cases c with
  | push t =>
    have hpush := wp_push h.pio hc
    have hgroups : ∀ s', p.Extends kind x.pio s' → ∀ (k : ℕ) (g : IOGroup S H),
        p.iogroupList[k]? = some g → g.Keeps (groupState k) (s'.groupState k) :=
      fun s' hext k g hg => (h.groups k g hg).trans (hext.groups k g hg)
    unfold wp at hpush
    unfold Client.next
    dsimp only
    cases hrun : p.push kind t x.pio with
    | ok i pio =>
      rw [hrun] at hpush
      obtain ⟨hpushed, hlive⟩ := hpush
      refine ⟨hpushed.inv, fun u j hu => ?_, hgroups pio hpushed.extends⟩
      obtain hu | hu := List.mem_append.mp hu
      · exact hpushed.extends.existing u j (h.pushed u j hu)
      · rw [List.mem_singleton, Prod.mk.injEq] at hu
        obtain ⟨rfl, rfl⟩ := hu
        exact hlive
    | error e pio =>
      rw [hrun] at hpush
      exact ⟨hpush.inv, fun u j hu => hpush.extends.existing u j (h.pushed u j hu),
        hgroups pio hpush.extends⟩
  | readBatch =>
    refine ⟨h.pio.readBatch, h.pushed, fun k g hg => (h.groups k g hg).trans ?_⟩
    change g.Keeps (x.pio.groupState k) ((p.readBatch x.pio).groupState k)
    rw [readBatch_groupState hg]
    exact (g.readBatch_spec _ _).1
  | hardware hw =>
    exact ⟨h.pio.of_table rfl rfl fun _ _ _ => IOGroup.Keeps.refl _, h.pushed, h.groups⟩

/-- The indices stand for what the immediate methods do, in every run whose pushes are routed. -/
theorem inv_of_reachable {hardware : ℕ → H} {x : Client S H}
    (h : (Lts.ofFun (Client.next p kind)).ReachableIf (Routed p kind) (start groupState hardware) x) :
    Inv p kind groupState x := by
  refine h.invariant ⟨fun t i ht => ?_, fun t i ht => (List.not_mem_nil ht).elim,
    fun _ _ _ => IOGroup.Keeps.refl _⟩ fun y c y' hy hc hstep => hstep ▸ hy.next hc
  exact absurd ht.1 (Option.some_ne_none i).symm

/-! ### Two IOGroups, of which the latest does not read every index -/

/-- A board with two packages. -/
def twoPackages : PlatformTopo where
  numDomain domainType := if domainType = 0 then 1 else 2
  isNestedDomain innerDomain outerDomain := decide (innerDomain = 1 ∧ outerDomain = 0)
  domainNested _ _ _ := [0, 1]
  sorted _ _ _ := by decide

/-- The power limit of a package, a signal and a control. -/
def powerLimit (domainIdx : ℤ) : Request := ⟨"CPU_POWER_LIMIT_CONTROL", 1, domainIdx⟩

/-- The power limit of the board. -/
def boardPowerLimit : Request := ⟨"CPU_POWER_LIMIT_CONTROL", 0, 0⟩

/-- The first IOGroup reads and writes the power limit of every package, the latest one writes
them too but does not read those of the packages `noRead`. -/
def fallbackPlatform (noRead : List ℤ) : Platform IOGroup.Slots (Request → Value) where
  topo := twoPackages
  iogroupList := [
    .ofRegisters 1 .sum (fun _ => none) fun _ => none,
    .ofRegisters 1 .sum (fun t =>
      if t.domainIdx ∈ noRead then some ⟨"read_signal(): no register", [], .runtime⟩ else none)
      fun _ => none]

/-- The registers of the first IOGroup hold zero, those of the latest one. -/
def registers (k : ℕ) (_ : Request) : Value := some (k : ℚ)

/-- A client that has pushed the requests. -/
def afterPushes (kind : Kind) (noRead : List ℤ) (ts : List Request) :
    Client IOGroup.Slots (Request → Value) :=
  (ts.map Call.push).foldl (next (fallbackPlatform noRead) kind) (start (fun _ => {}) registers)

end Client

end Geopm.Pio
