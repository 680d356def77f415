import Geopm.Pio.MSRField

/-!
# Counters that roll over

The register of a counter holds the true count up to a power of two. `MSRFieldSignal` unwraps it
with one `RolloverGenerator`, which the samples of a batch and the immediate reads share.

* `BatchedSignal` : the signal, with what the last batch has captured; `readBatch`, `sample`,
  `read` : the calls; `run` : the values that they return;
* `Counter` : a field that a counter is in; `Observed` : the registers that a counter shows;
* `Right` : every value returned is the count when its register was captured;
* `InOrder` : each conversion is of a count that is no less than the one before, and by less than a
  turn greater;
* `update_iff` : one conversion; `rollover_iff` : every run.
-/

namespace Geopm.Pio

open List

/-! ### The calls -/

/-- The members of `MSRFieldSignal`, and what the last batch has captured of the register. -/
structure BatchedSignal (K : Type*) where
  signal : MSRFieldSignal K
  isBatchReady : Bool := false
  batch : Option (BitVec 64) := none

namespace BatchedSignal

variable {K : Type*} [Field K] [LinearOrder K] (s : BatchedSignal K)

def setupBatch : BatchedSignal K := { s with isBatchReady := true }

/-- A batch captures the register. -/
def readBatch (raw : BitVec 64) : BatchedSignal K := { s with batch := some raw }

/-- A register is converted. -/
def convert (raw : BitVec 64) : K × BatchedSignal K :=
  let (result, signal) := s.signal.convertRawValue raw
  (result, { s with signal })

/-- `MSRFieldSignal::sample`. -/
def sample : Except Exception (K × BatchedSignal K) :=
  if !s.isBatchReady then
    .error ⟨"setup_batch() must be called before sample().", [], .runtime⟩
  else match s.batch with
    | none => .error ⟨"MSRIOImp::sample(): cannot call sample() before read_batch().", [], .invalid⟩
    | some raw => .ok (s.convert raw)

/-- `MSRFieldSignal::read`, of a register. -/
def read (raw : BitVec 64) : K × BatchedSignal K := s.convert raw

end BatchedSignal

/-- A call, with the register that it observes and the true count then. -/
inductive CounterCall where
  | readBatch (count : ℕ) (raw : BitVec 64)
  | sample
  | read (count : ℕ) (raw : BitVec 64)

namespace CounterCall

/-- What the calls of `sample` and of `read` return. -/
def run {K : Type*} [Field K] [LinearOrder K] :
    BatchedSignal K → List CounterCall → List (Except Exception K)
  | _, [] => []
  | s, .readBatch _ raw :: calls => run (s.readBatch raw) calls
  | s, .sample :: calls =>
    match s.sample with
    | .error e => .error e :: run s calls
    | .ok (v, s) => .ok v :: run s calls
  | s, .read _ raw :: calls =>
    let (v, s) := s.read raw
    .ok v :: run s calls

/-- The registers that are observed, with their counts. -/
def observations : List CounterCall → List (ℕ × BitVec 64)
  | [] => []
  | .readBatch count raw :: calls => (count, raw) :: observations calls
  | .sample :: calls => observations calls
  | .read count raw :: calls => (count, raw) :: observations calls

/-- The counts when the registers were captured that `sample` and `read` convert, after a batch. -/
def captured : Option ℕ → List CounterCall → List (Option ℕ)
  | _, [] => []
  | _, .readBatch count _ :: calls => captured (some count) calls
  | batch, .sample :: calls => batch :: captured batch calls
  | batch, .read count _ :: calls => some count :: captured batch calls

end CounterCall

open CounterCall

/-- A count follows another one within a turn of a counter of the given modulus. -/
def WithinTurn (modulus count count' : ℕ) : Prop := count ≤ count' ∧ count' < count + modulus

instance (modulus count count' : ℕ) : Decidable (WithinTurn modulus count count') :=
  inferInstanceAs (Decidable (_ ∧ _))

/-- A field that holds a counter of less than 64 bits. -/
structure Counter (K : Type*) where
  beginBit : ℕ
  endBit : ℕ
  scalar : K
  begin_le_end : beginBit ≤ endBit
  end_lt : endBit < 64
  width_lt : endBit - beginBit + 1 < 64

namespace Counter

variable {K : Type*} (f : Counter K)

/-- The number of bits. -/
def width : ℕ := f.endBit - f.beginBit + 1

/-- The content of the field in a word. -/
def content (raw : BitVec 64) : ℕ := raw.toNat / 2 ^ f.beginBit % 2 ^ f.width

/-- The counter never decreases, and advances by less than a turn between two observations. -/
def Observed (calls : List CounterCall) : Prop :=
  (∀ x ∈ observations calls, f.content x.2 = x.1 % 2 ^ f.width) ∧
    ((observations calls).map Prod.fst).IsChain (WithinTurn (2 ^ f.width))

/-- The turns that have elapsed before the first observation. -/
def elapsed (calls : List CounterCall) : ℕ :=
  2 ^ f.width * (((observations calls).head?.map Prod.fst).getD 0 / 2 ^ f.width)

/-- The counts are converted in order, with no turn between two of them, or before the first. -/
def InOrder (calls : List CounterCall) : Prop :=
  (f.elapsed calls :: (captured none calls).reduceOption).IsChain (WithinTurn (2 ^ f.width))

variable [Field K] [LinearOrder K]

/-- The signal, set up for batches. -/
def signal : BatchedSignal K :=
  { signal := .make f.beginBit f.endBit .overflow f.scalar : BatchedSignal K }.setupBatch

/-- A value that is returned is the count of the captured register. -/
def Counts (elapsed : ℕ) (result : Except Exception K) (count : Option ℕ) : Prop :=
  ∀ v, result = .ok v → ∃ c, count = some c ∧ v = ((c : K) - elapsed) * f.scalar

/-- Every value that is returned is the count of the captured register, without the turns that have
elapsed before the first observation. -/
def Right (calls : List CounterCall) : Prop :=
  List.Forall₂ (f.Counts (f.elapsed calls)) (run f.signal calls) (captured none calls)

end Counter

/-! ### One conversion -/

namespace RolloverGenerator

variable {K : Type*} [Field K] [LinearOrder K]

/-- The generator has converted a count, and counts from the elapsed turns on. -/
structure Holds (g : RolloverGenerator K) (modulus elapsed count : ℕ) : Prop where
  last : g.lastValue = (count % modulus : ℕ)
  factor : g.rolloverFactor = modulus
  total : g.rolloverTotal = ((modulus * (count / modulus) : ℕ) : K) - elapsed

variable {g : RolloverGenerator K} {modulus elapsed count : ℕ}

/-- The turns that are counted are those of a count within a turn. -/
theorem turns_iff (hpos : 0 < modulus) (count' : ℕ) :
    count' % modulus + (modulus * (count / modulus) +
      if count' % modulus < count % modulus then modulus else 0) = count' ↔
      WithinTurn modulus count count' := by
  have hcount := Nat.mod_add_div count modulus
  have hcount' := Nat.mod_add_div count' modulus
  have hlt := Nat.mod_lt count hpos
  have hlt' := Nat.mod_lt count' hpos
  have hmono {q q' : ℕ} (h : q < q') : modulus * q + modulus ≤ modulus * q' := by
    rw [← Nat.mul_succ]
    exact Nat.mul_le_mul_left modulus h
  rw [WithinTurn]
  -- the quotients are the same, or the next one
  rcases lt_trichotomy (count / modulus) (count' / modulus) with h | h | h
  · rcases Nat.eq_or_lt_of_le h with h' | h'
    · have hturn : modulus * (count' / modulus) = modulus * (count / modulus) + modulus := by
        rw [← h', Nat.mul_succ]
      split <;> omega
    · have hmore := hmono h
      have hmore' := hmono h'
      rw [Nat.mul_succ] at hmore'
      split <;> omega
  · rw [h] at hcount ⊢
    split <;> omega
  · have hmore := hmono h
    split <;> omega

theorem update_fst (v : K) : (g.update v).1 = v + (g.update v).2.rolloverTotal := rfl

variable [IsStrictOrderedRing K]

theorem update_iff (h : g.Holds modulus elapsed count) (hpos : 0 < modulus) (count' : ℕ) :
    (g.update (count' % modulus : ℕ)).1 = (count' : K) - elapsed ↔
      WithinTurn modulus count count' := by
  rw [← turns_iff hpos, update]
  simp only [h.last, h.factor, h.total, gt_iff_lt, Nat.cast_lt]
  rw [← Nat.cast_inj (R := K)]
  split
  · push_cast
    constructor <;> intro h <;> linear_combination h
  · push_cast
    constructor <;> intro h <;> linear_combination h

theorem Holds.update (h : g.Holds modulus elapsed count) (hpos : 0 < modulus) {count' : ℕ}
    (hturn : WithinTurn modulus count count') :
    (g.update (count' % modulus : ℕ)).2.Holds modulus elapsed count' := by
  refine ⟨rfl, h.factor, ?_⟩
  have hvalue := (update_iff h hpos count').mpr hturn
  have hcount : ((count' % modulus : ℕ) : K) + ((modulus * (count' / modulus) : ℕ) : K) = count' := by
    exact_mod_cast Nat.mod_add_div count' modulus
  rw [update_fst] at hvalue
  linear_combination hvalue - hcount

end RolloverGenerator

/-! ### Runs -/

namespace BatchedSignal

variable {K : Type*} [Field K] [LinearOrder K] {s s' : BatchedSignal K} {v : K} {raw : BitVec 64}

theorem convert_again (h : s.convert raw = (v, s')) : s'.convert raw = (v, s') := by
  obtain ⟨⟨shift, numBit, mask, function, scalar, g⟩, isBatchReady, batch⟩ := s
  cases function with
  | overflow =>
    cases h
    simp [convert, MSRFieldSignal.convertRawValue, RolloverGenerator.update]
  | scale => cases h; rfl
  | logic => cases h; rfl
  | logHalf => cases h; rfl
  | sevenBitFloat => cases h; rfl

@[simp] theorem convert_isBatchReady : (s.convert raw).2.isBatchReady = s.isBatchReady := rfl

@[simp] theorem convert_batch : (s.convert raw).2.batch = s.batch := rfl

theorem sample_eq_ok {x : K × BatchedSignal K} : s.sample = .ok x ↔
    s.isBatchReady = true ∧ ∃ raw, s.batch = some raw ∧ s.convert raw = x := by
  rw [sample]
  cases s.isBatchReady with
  | false => simp
  | true =>
    cases s.batch with
    | none => simp
    | some raw => simp

theorem sample_again (h : s.sample = .ok (v, s')) : s'.sample = .ok (v, s') := by
  obtain ⟨hready, raw, hbatch, hconvert⟩ := sample_eq_ok.mp h
  have hs' : s' = (s.convert raw).2 := by rw [hconvert]
  refine sample_eq_ok.mpr ⟨?_, raw, ?_, convert_again hconvert⟩
  · rw [hs', convert_isBatchReady, hready]
  · rw [hs', convert_batch, hbatch]

end BatchedSignal

namespace Counter

variable {K : Type*} [Field K] [LinearOrder K] (f : Counter K)

/-- The signal has converted a count, and a batch has captured another one. -/
structure Holds (s : BatchedSignal K) (elapsed count : ℕ) (batch : Option ℕ) : Prop where
  signal : ∃ g, g.Holds (2 ^ f.width) elapsed count ∧
    s.signal = { f.signal.signal with rolloverGen := g }
  ready : s.isBatchReady = true
  batch : Option.Rel (fun raw c => f.content raw = c % 2 ^ f.width) s.batch batch

omit [LinearOrder K] in
/-- The signal starts as if the elapsed turns had been converted. -/
theorem holds_signal (calls : List CounterCall) :
    f.Holds f.signal (f.elapsed calls) (f.elapsed calls) none := by
  have hpos : 0 < 2 ^ f.width := by positivity
  refine ⟨⟨_, ⟨?_, ?_, ?_⟩, rfl⟩, rfl, .none⟩
  · rw [elapsed, Nat.mul_mod_right, Nat.cast_zero]
  · rw [Nat.cast_pow, Nat.cast_ofNat]
    rfl
  · rw [elapsed, Nat.mul_div_cancel_left _ hpos, sub_self]

variable {f} {s : BatchedSignal K} {elapsed count : ℕ} {batch : Option ℕ}

omit [LinearOrder K] in
theorem Holds.readBatch (h : f.Holds s elapsed count batch) {raw : BitVec 64} {count' : ℕ}
    (hraw : f.content raw = count' % 2 ^ f.width) :
    f.Holds (s.readBatch raw) elapsed count (some count') :=
  ⟨h.signal, h.ready, .some hraw⟩

theorem Holds.sample (h : f.Holds s elapsed count batch) :
    (batch = none ∧ ∃ e, s.sample = .error e) ∨ ∃ c raw, batch = some c ∧
      f.content raw = c % 2 ^ f.width ∧ s.sample = .ok (s.convert raw) := by
  have hbatch := h.batch
  rw [BatchedSignal.sample, h.ready]
  generalize s.batch = sbatch at hbatch ⊢
  cases hbatch with
  | none => exact .inl ⟨rfl, _, rfl⟩
  | some hraw => exact .inr ⟨_, _, rfl, hraw, rfl⟩

variable [IsStrictOrderedRing K]

/-- The register of a count is converted to it if it follows the last one within a turn, and else
it is not, unless the scalar is zero. -/
theorem Holds.convert (h : f.Holds s elapsed count batch) {raw : BitVec 64} {count' : ℕ}
    (hraw : f.content raw = count' % 2 ^ f.width) :
    (WithinTurn (2 ^ f.width) count count' →
      (s.convert raw).1 = ((count' : K) - elapsed) * f.scalar ∧
        f.Holds (s.convert raw).2 elapsed count' batch) ∧
      (f.scalar ≠ 0 → (s.convert raw).1 = ((count' : K) - elapsed) * f.scalar →
        WithinTurn (2 ^ f.width) count count') := by
  have hpos : 0 < 2 ^ f.width := by positivity
  obtain ⟨⟨g, hg, hsignal⟩, hready, hbatch⟩ := h
  have hle := f.begin_le_end
  have hlt := f.end_lt
  have hsub : ((raw &&& Mask.field f.width f.beginBit) >>> f.beginBit).toNat =
      count' % 2 ^ f.width := by
    rw [← hraw]
    exact Mask.toNat_extract f.width_lt (by omega) raw
  have hconvert : s.convert raw = ((g.update (count' % 2 ^ f.width : ℕ)).1 * f.scalar,
      { s with signal := { f.signal.signal with
        rolloverGen := (g.update (count' % 2 ^ f.width : ℕ)).2 } }) := by
    rw [← hsub, BatchedSignal.convert, hsignal]
    rfl
  rw [hconvert]
  constructor
  · intro hturn
    refine ⟨?_, ⟨_, hg.update hpos hturn, rfl⟩, hready, hbatch⟩
    rw [(RolloverGenerator.update_iff hg hpos count').mpr hturn]
  · intro hscalar hvalue
    exact (RolloverGenerator.update_iff hg hpos count').mp (mul_right_cancel₀ hscalar hvalue)

theorem Holds.cons (h : f.Holds s elapsed count batch) {raw : BitVec 64} {c : ℕ}
    (hraw : f.content raw = c % 2 ^ f.width) {results : List (Except Exception K)}
    {counts : List (Option ℕ)} (hrest : f.Holds (s.convert raw).2 elapsed c batch →
      ((c :: counts.reduceOption).IsChain (WithinTurn (2 ^ f.width)) →
        List.Forall₂ (f.Counts elapsed) results counts) ∧
      (f.scalar ≠ 0 → List.Forall₂ (f.Counts elapsed) results counts →
        (c :: counts.reduceOption).IsChain (WithinTurn (2 ^ f.width)))) :
    ((count :: (some c :: counts).reduceOption).IsChain (WithinTurn (2 ^ f.width)) →
      List.Forall₂ (f.Counts elapsed) (.ok (s.convert raw).1 :: results) (some c :: counts)) ∧
    (f.scalar ≠ 0 →
      List.Forall₂ (f.Counts elapsed) (.ok (s.convert raw).1 :: results) (some c :: counts) →
      (count :: (some c :: counts).reduceOption).IsChain (WithinTurn (2 ^ f.width))) := by
  obtain ⟨hforward, hback⟩ := h.convert hraw
  rw [reduceOption_cons_of_some, isChain_cons_cons, forall₂_cons]
  constructor
  · rintro ⟨hturn, hchain⟩
    obtain ⟨hvalue, hholds⟩ := hforward hturn
    refine ⟨fun v hv => ⟨c, rfl, ?_⟩, (hrest hholds).1 hchain⟩
    rw [← Except.ok.inj hv, hvalue]
  · rintro hscalar ⟨hcounts, hresults⟩
    obtain ⟨c', hc', hvalue⟩ := hcounts _ rfl
    obtain rfl := Option.some.inj hc'
    have hturn := hback hscalar hvalue
    exact ⟨hturn, (hrest (hforward hturn).2).2 hscalar hresults⟩

theorem Holds.run (calls : List CounterCall) (h : f.Holds s elapsed count batch)
    (hcontent : ∀ x ∈ observations calls, f.content x.2 = x.1 % 2 ^ f.width) :
    ((count :: (captured batch calls).reduceOption).IsChain (WithinTurn (2 ^ f.width)) →
      List.Forall₂ (f.Counts elapsed) (run s calls) (captured batch calls)) ∧
    (f.scalar ≠ 0 → List.Forall₂ (f.Counts elapsed) (run s calls) (captured batch calls) →
      (count :: (captured batch calls).reduceOption).IsChain (WithinTurn (2 ^ f.width))) := by
  induction calls generalizing s count batch with
  | nil => exact ⟨fun _ => .nil, fun _ _ => .singleton _⟩
  | cons call calls ih =>
    cases call with
    | readBatch c raw =>
      obtain ⟨hraw, hrest⟩ := forall_mem_cons.mp hcontent
      exact ih (h.readBatch hraw) hrest
    | read c raw =>
      obtain ⟨hraw, hrest⟩ := forall_mem_cons.mp hcontent
      exact h.cons hraw fun hholds => ih hholds hrest
    | sample =>
      rw [CounterCall.run, captured]
      rcases h.sample with ⟨rfl, e, hsample⟩ | ⟨c, raw, rfl, hraw, hsample⟩
      · -- nothing is returned
        have hcounts : f.Counts elapsed (.error e) none := fun v hv => nomatch hv
        obtain ⟨hright, horder⟩ := ih h hcontent
        rw [hsample, reduceOption_cons_of_none]
        simp only [forall₂_cons, hcounts, true_and]
        exact ⟨hright, horder⟩
      · rw [hsample]
        exact h.cons hraw fun hholds => ih hholds hcontent

/-- The values are right in every run that converts the counts in order, and in no other one.
Consecutive samples of one batch are equal in every state. -/
theorem rollover_iff (f : Counter K) (calls : List CounterCall) (h : f.Observed calls) :
    (f.InOrder calls → f.Right calls) ∧ (f.scalar ≠ 0 → f.Right calls → f.InOrder calls) ∧
      ∀ (s s' : BatchedSignal K) (v : K), s.sample = .ok (v, s') → s'.sample = .ok (v, s') := by
  obtain ⟨hright, horder⟩ := (f.holds_signal calls).run calls h.1
  exact ⟨hright, horder, fun _ _ _ => BatchedSignal.sample_again⟩

/-- A counter of eight bits. -/
def byte : Counter ℚ := ⟨0, 7, 1, by decide, by decide, by decide⟩

/-- A batch, a read and a batch again, with a turn between the first and the last. -/
def threeReads : List CounterCall :=
  [.readBatch 250 250#64, .sample, .read 259 3#64, .readBatch 261 5#64, .sample, .sample]

theorem rollover_iff_three : byte.Observed threeReads ∧ byte.InOrder threeReads ∧
    byte.Right threeReads := by
  have hobserved : byte.Observed threeReads := ⟨by decide, by decide⟩
  have horder : byte.InOrder threeReads := by
    rw [InOrder]
    decide
  exact ⟨hobserved, horder, (rollover_iff byte threeReads hobserved).1 horder⟩

/-- A sample of an older register after a read looks like a turn. -/
theorem not_right : ¬ ∀ calls, byte.Observed calls → byte.Right calls := by
  intro h
  have hright := h [.readBatch 10 10#64, .read 20 20#64, .sample] ⟨by decide, by decide⟩
  obtain ⟨-, hsample⟩ := forall₂_cons.mp hright
  obtain ⟨hcounts, -⟩ := forall₂_cons.mp hsample
  obtain ⟨c, hc, hvalue⟩ := hcounts 266 (by decide +kernel)
  obtain rfl := Option.some.inj hc
  norm_num [byte, elapsed, observations, width] at hvalue

end Counter

end Geopm.Pio
