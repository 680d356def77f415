import Geopm.Pio.MSRSample

/-!
# Samples that are right

`MSRIOImp::sample` trusts one flag, which `write_batch` sets as well as `read_batch`, and a pointer
that `add_read` may leave behind.

* `Context.Settled` : the flag, the pointer and the operations belong to a batch that has been read;
* `Context.Settled.turn`, `Context.Settled.calmTurn` : calls that are calm keep a context settled,
  and no others leave its samples right;
* `sample_right_iff` : in a run, the samples are right just when all calls are calm.
-/

namespace Geopm.Pio.MSRSample

open Prog (wp_bind wp_get wp_ite final wp_final wp_mono returns wp of_raises)
open List

variable {driverMask : BitVec 32 → BitVec 64} {grow : ℕ → ℕ} {s : MSRIOImp} {ctx : Context}

/-- The flag is that of a batch that has been read, which the pointer and the operations belong
to. -/
structure Context.Settled (numCpu : ℕ) (isBatchEnabled : Bool) (ctx : Context) : Prop where
  reads : ∀ op ∈ ctx.readBatchOp, op.isrdmsr = true
  unread : ctx.lastRead = none → ctx.writes.isBatchRead = false
  read : ∀ values, ctx.lastRead = some values → ctx.writes.isBatchRead = true ∧
    ctx.readBatch.ops = some ctx.allocation ∧ values = ctx.readBatchOp.map (·.msrdata)
  cpus : ctx.lastRead ≠ none → isBatchEnabled = false →
    ∀ op ∈ ctx.readBatchOp, op.cpu.toNat ≤ numCpu

section Settled

variable {numCpu : ℕ} {isBatchEnabled : Bool} {batchIdx : ℤ}

/-- What is sampled through a pointer that is good. -/
theorem sample_of_read (hread : ctx.writes.isBatchRead = true)
    (hops : ctx.readBatch.ops = some ctx.allocation) {i : ℕ} {op : BatchOp}
    (hop : ctx.readBatchOp[i]? = some op) : ctx.sample i = .value op.msrdata := by
  unfold Context.sample
  rw [if_neg (by simp [hread]), if_neg (by simp [hops]), Int.toNat_natCast, hop]

theorem right_of_unread (h : ctx.writes.isBatchRead = false) : ctx.Right batchIdx := by
  unfold Context.Right Context.sample
  rw [if_pos h]
  trivial

theorem exists_of_right (hread : ctx.writes.isBatchRead = true) (h : ctx.Right batchIdx) :
    ∃ raw values, ctx.sample batchIdx = .value raw ∧ ctx.lastRead = some values ∧
      values[batchIdx.toNat]? = some raw := by
  unfold Context.Right at h
  cases hsample : ctx.sample batchIdx with
  | throws ex =>
    unfold Context.sample at hsample
    rw [if_neg (by simp [hread])] at hsample
    split_ifs at hsample
    split at hsample <;> cases hsample
  | value raw =>
    rw [hsample] at h
    obtain ⟨values, hvalues, hraw⟩ := h
    exact ⟨raw, values, rfl, hvalues, hraw⟩
  | undefined =>
    rw [hsample] at h
    exact h.elim

/-- **The samples of a context that is settled are right.** -/
theorem Context.Settled.allRight (h : ctx.Settled numCpu isBatchEnabled) : ctx.AllRight := by
  intro batchIdx hasked
  cases hlast : ctx.lastRead with
  | none => exact right_of_unread (h.unread hlast)
  | some values =>
    obtain ⟨hpos, hlt⟩ : ctx.Added batchIdx := by
      refine hasked.resolve_right ?_
      rw [hlast]
      exact Option.some_ne_none values
    obtain ⟨hread, hops, rfl⟩ := h.read values hlast
    obtain ⟨i, rfl⟩ := Int.eq_ofNat_of_zero_le hpos
    have hop : ctx.readBatchOp[i]? = some ctx.readBatchOp[i] := getElem?_eq_getElem hlt
    have hsample := sample_of_read hread hops hop
    unfold Context.Right
    rw [hsample]
    refine ⟨_, hlast, ?_⟩
    rw [Int.toNat_natCast, getElem?_map, hop]
    rfl

theorem Context.Settled.withWrites (h : ctx.Settled numCpu isBatchEnabled) {writes : MSRIO}
    (hflag : writes.isBatchRead = ctx.writes.isBatchRead) :
    { ctx with writes := writes }.Settled numCpu isBatchEnabled where
  reads := h.reads
  unread hlast := hflag.trans (h.unread hlast)
  read values hlast := ⟨hflag.trans (h.read values hlast).1, (h.read values hlast).2⟩
  cpus := h.cpus

theorem keeps_systemWriteMask (offset : BitVec 64) (reads : Bool) :
    Prog.Keeps (fun m : Machine => m.msrio.isBatchRead)
      (Machine.systemWriteMask driverMask offset reads) := by
  intro m
  unfold Machine.systemWriteMask
  rw [wp_bind, wp_get, wp_ite]
  refine ⟨fun _ => rfl, fun _ => ?_⟩
  split
  · rfl
  · rw [wp_ite]
    exact ⟨fun _ => rfl, fun _ => rfl⟩

theorem final_addWrite_isBatchRead (cpuIdx : ℤ) (offset : BitVec 64) (reads : Bool) (m : Machine) :
    (final (Machine.addWrite driverMask cpuIdx offset reads) m).msrio.isBatchRead =
      m.msrio.isBatchRead := by
  refine (wp_final (P := fun m' : Machine => m'.msrio.isBatchRead = m.msrio.isBatchRead)).mp ?_
  unfold Machine.addWrite
  rw [wp_bind, wp_get, wp_ite]
  refine ⟨fun _ => rfl, fun _ => ?_⟩
  split
  · rfl
  · rw [wp_bind]
    exact wp_mono (keeps_systemWriteMask offset reads m) (fun _ _ h => h) fun _ _ h => h

theorem final_adjust_isBatchRead (batchIdx : ℤ) (rawValue writeMask : BitVec 64) (m : Machine) :
    (final (Machine.adjust batchIdx rawValue writeMask) m).msrio.isBatchRead =
      m.msrio.isBatchRead := by
  refine (wp_final (P := fun m' : Machine => m'.msrio.isBatchRead = m.msrio.isBatchRead)).mp ?_
  unfold Machine.adjust
  rw [wp_bind, wp_get]
  split
  · rfl
  · rw [wp_ite, wp_ite]
    exact ⟨fun _ => rfl, fun _ => ⟨fun _ => rfl, fun _ => rfl⟩⟩

theorem final_writeBatch_isBatchRead (first second : Outcome) (m : Machine) :
    (final (Machine.writeBatch driverMask first second) m).msrio.isBatchRead =
      (returns (Machine.writeBatch driverMask first second) m || m.msrio.isBatchRead) := by
  have hwp : wp (Machine.writeBatch driverMask first second)
      (fun _ m' => m'.msrio.isBatchRead = true)
      (fun _ m' => m'.msrio.isBatchRead = m.msrio.isBatchRead) m := by
    refine Machine.wp_writeBatch (fun _ => rfl) (fun _ => rfl) fun io hio => ?_
    refine wp_mono (Machine.wp_readModifyWrite_ends hio first second) ?_ ?_
    · rintro - m' -
      rfl
    · rintro - m' ⟨registers, ops, rfl, -⟩
      rfl
  cases hreturns : returns (Machine.writeBatch driverMask first second) m with
  | true =>
    obtain ⟨-, hflag⟩ := Prog.of_returns hwp hreturns
    rw [hflag, Bool.true_or]
  | false =>
    obtain ⟨-, hflag⟩ := of_raises hwp hreturns
    rw [hflag, Bool.false_or]

theorem pushBack_eq (ctx : Context) (grow : ℕ → ℕ) (op : BatchOp) :
    (ctx.pushBack grow op).writes = ctx.writes ∧ (ctx.pushBack grow op).lastRead = ctx.lastRead ∧
      (ctx.pushBack grow op).readBatchOp = ctx.readBatchOp ++ [op] := by
  unfold Context.pushBack
  split_ifs <;> exact ⟨rfl, rfl, rfl⟩

variable {c : Call}

/-- **A call that is calm keeps its context settled.** -/
theorem Context.Settled.turn (h : ctx.Settled s.numCpu s.isBatchEnabled)
    (hcalm : CalmTurn driverMask s ctx c) :
    (turn driverMask grow s ctx c).Settled s.numCpu s.isBatchEnabled := by
  cases c with
  | createBatchContext => exact h
  | others registers => exact h
  | addRead cpuIdx offset batchCtx =>
    have hnone : ctx.lastRead = none := hcalm
    obtain ⟨hwrites, hlast, hops⟩ := pushBack_eq ctx grow
      ⟨BitVec.ofInt 16 cpuIdx, true, 0, offset.setWidth 32, 0, 0⟩
    rw [hnone] at hlast
    refine ⟨?_, fun _ => ?_, fun values hvalues => ?_, fun hsome => absurd hlast hsome⟩
    · intro op hop
      obtain hop | hop := mem_append.mp (hops ▸ hop)
      · exact h.reads op hop
      · rw [mem_singleton.mp hop]
    · exact (congrArg MSRIO.isBatchRead hwrites).trans (h.unread hnone)
    · cases hlast.symm.trans hvalues
  | addWrite cpuIdx offset reads batchCtx =>
    exact h.withWrites (final_addWrite_isBatchRead cpuIdx offset reads (s.machine ctx))
  | adjust batchIdx rawValue writeMask batchCtx =>
    exact h.withWrites (final_adjust_isBatchRead batchIdx rawValue writeMask (s.machine ctx))
  | writeBatch batchCtx first second =>
    refine h.withWrites ((final_writeBatch_isBatchRead first second (s.machine ctx)).trans ?_)
    show (_ || ctx.writes.isBatchRead) = ctx.writes.isBatchRead
    cases hlast : ctx.lastRead with
    | none => rw [hcalm hlast, Bool.false_or]
    | some values => rw [(h.read values hlast).1, Bool.or_true]
  | readBatch batchCtx o =>
    have hwp : wp (readContext driverMask s o) _ _ ctx := wp_readContext h.reads o
    have hreads : ∀ op ∈ ctx.readBatchOp.map (readOp o s.registers), op.isrdmsr = true := by
      intro op hop
      obtain ⟨op, hmem, rfl⟩ := mem_map.mp hop
      rw [readOp_isrdmsr]
      exact h.reads op hmem
    cases hreturns : returns (readContext driverMask s o) ctx with
    | true =>
      obtain ⟨-, hfinal, hok, hcpus⟩ := Prog.of_returns hwp hreturns
      show (final _ ctx).Settled _ _
      rw [hfinal]
      refine ⟨hreads, fun hnone => (nomatch hnone), fun values hvalues => ⟨rfl, rfl, ?_⟩, ?_⟩
      · cases hvalues
        refine map_congr_left fun op' hop => ?_
        obtain ⟨op, hmem, rfl⟩ := mem_map.mp hop
        rw [readOp_address, readOp_msrdata (hok op hmem)]
      · intro _ hfiles op' hop
        obtain ⟨op, hmem, rfl⟩ := mem_map.mp hop
        rw [readOp_cpu]
        exact hcpus hfiles op hmem
    | false =>
      obtain ⟨-, hfinal⟩ := of_raises hwp hreturns
      show (final _ ctx).Settled _ _
      -- the operations that have been run hold what they held, if they had been read before
      have hdata : ctx.lastRead ≠ none → ctx.readBatchOp.map (·.msrdata) =
          (ctx.readBatchOp.map (readOp o s.registers)).map (·.msrdata) := by
        intro hread
        obtain hreturns' | hsame := hcalm hread
        · rw [hreturns] at hreturns'
          cases hreturns'
        · rw [map_map]
          refine map_congr_left fun op hop => ?_
          show op.msrdata = (readOp o s.registers op).msrdata
          unfold readOp
          split_ifs with hperformed
          · exact (hsame op hop hperformed).symm
          · rfl
      obtain hfinal | ⟨hfinal, -, -⟩ := hfinal
      · rw [hfinal]
        refine ⟨hreads, h.unread, fun values hvalues => ⟨(h.read values hvalues).1, rfl, ?_⟩, ?_⟩
        · rw [(h.read values hvalues).2.2]
          refine hdata fun hnone => ?_
          cases hnone.symm.trans hvalues
        · intro hread hfiles op' hop
          obtain ⟨op, hmem, rfl⟩ := mem_map.mp hop
          rw [readOp_cpu]
          exact h.cpus hread hfiles op hmem
      · rw [hfinal]
        exact ⟨h.reads, h.unread, fun values hvalues =>
          ⟨(h.read values hvalues).1, rfl, (h.read values hvalues).2.2⟩, h.cpus⟩

/-- **A call that leaves the samples of its context right is calm.** -/
theorem Context.Settled.calmTurn (h : ctx.Settled s.numCpu s.isBatchEnabled)
    (hright : (MSRSample.turn driverMask grow s ctx c).AllRight) : CalmTurn driverMask s ctx c := by
  cases c with
  | createBatchContext => trivial
  | others registers => trivial
  | addWrite cpuIdx offset reads batchCtx => trivial
  | adjust batchIdx rawValue writeMask batchCtx => trivial
  | addRead cpuIdx offset batchCtx =>
    show ctx.lastRead = none
    cases hlast : ctx.lastRead with
    | none => rfl
    | some values =>
      -- the new index is sampled without having been read
      obtain ⟨hread, -, rfl⟩ := h.read values hlast
      obtain ⟨hwrites, hlast', hops⟩ := pushBack_eq ctx grow
        ⟨BitVec.ofInt 16 cpuIdx, true, 0, offset.setWidth 32, 0, 0⟩
      have hadded : (MSRSample.turn driverMask grow s ctx (.addRead cpuIdx offset batchCtx)).Added
          ctx.readBatchOp.length := by
        refine ⟨Int.natCast_nonneg _, ?_⟩
        show _ < (ctx.pushBack grow _).readBatchOp.length
        rw [hops, length_append, Int.toNat_natCast]
        exact Nat.lt_succ_self _
      obtain ⟨raw, values, -, hvalues, hraw⟩ := exists_of_right
        ((congrArg MSRIO.isBatchRead hwrites).trans hread) (hright _ (.inl hadded))
      have heq : some (ctx.readBatchOp.map (·.msrdata)) = some values :=
        hlast.symm.trans (hlast'.symm.trans hvalues)
      cases heq
      rw [Int.toNat_natCast, getElem?_eq_none (by simp)] at hraw
      cases hraw
  | writeBatch batchCtx first second =>
    intro hlast
    by_contra hreturns
    rw [Bool.not_eq_false] at hreturns
    have hflag : (final (Machine.writeBatch driverMask first second)
        (s.machine ctx)).msrio.isBatchRead = true := by
      rw [final_writeBatch_isBatchRead, hreturns, Bool.true_or]
    obtain ⟨raw, values, -, hvalues, -⟩ := exists_of_right hflag (hright 0 (.inr hlast))
    cases hlast.symm.trans hvalues
  | readBatch batchCtx o =>
    intro hread
    cases hreturns : returns (readContext driverMask s o) ctx with
    | true => exact .inl rfl
    | false =>
      refine .inr fun op hop hperformed => ?_
      obtain ⟨values, hlast⟩ := Option.ne_none_iff_exists'.mp hread
      obtain ⟨hflag, -, rfl⟩ := h.read values hlast
      obtain ⟨-, hfinal⟩ := of_raises (wp_readContext h.reads o) hreturns
      have hright : (final (readContext driverMask s o) ctx).AllRight := hright
      obtain hfinal | ⟨-, hfiles, op', hop', hcpu⟩ := hfinal
      · rw [hfinal] at hright
        obtain ⟨i, hi⟩ := mem_iff_getElem?.mp hop
        have hop' : (afterReads o s.registers ctx).readBatchOp[i]? =
            some (readOp o s.registers op) := by
          show (ctx.readBatchOp.map _)[i]? = _
          rw [getElem?_map, hi]
          rfl
        have hadded : (afterReads o s.registers ctx).Added i :=
          ⟨Int.natCast_nonneg i, (List.getElem?_eq_some_iff.mp hop').1⟩
        have hflag : (afterReads o s.registers ctx).writes.isBatchRead = true := hflag
        have hvalue : (afterReads o s.registers ctx).sample i =
            .value (readOp o s.registers op).msrdata := sample_of_read hflag rfl hop'
        obtain ⟨raw, values, hsample, hvalues, hraw⟩ :=
          exists_of_right hflag (hright _ (.inl hadded))
        rw [hvalue] at hsample
        cases hsample
        cases hlast.symm.trans hvalues
        rw [Int.toNat_natCast, getElem?_map, hi] at hraw
        have hdata := Option.some.inj hraw
        unfold readOp at hdata
        rw [if_pos hperformed] at hdata
        exact hdata.symm
      · exact absurd (h.cpus hread hfiles op' hop') (by omega)

/-! ### Runs of calls -/

/-- All contexts are settled. -/
def MSRIOImp.Settled (s : MSRIOImp) : Prop :=
  ∀ ctx ∈ s.batchContext, ctx.Settled s.numCpu s.isBatchEnabled

variable {batchCtx : ℤ}

theorem mem_of_context? (h : s.context? batchCtx = some ctx) :
    ctx ∈ s.batchContext := by
  unfold MSRIOImp.context? at h
  split_ifs at h
  exact mem_of_getElem? h

/-- The context of a call, after the call. -/
theorem context?_next (hc : c.batchCtx? = some batchCtx)
    (h : s.context? batchCtx = some ctx) :
    (next driverMask grow s c).context? batchCtx =
      some (MSRSample.turn driverMask grow s ctx c) := by
  have hnext : (next driverMask grow s c).batchContext = _ := (next_some hc h).1
  unfold MSRIOImp.context? at h ⊢
  split_ifs at h ⊢
  rw [hnext, getElem?_set_self (List.getElem?_eq_some_iff.mp h).1]

/-- A new context. -/
def newContext (s : MSRIOImp) : Context :=
  { writes := { numCpu := s.numCpu, isBatchEnabled := s.isBatchEnabled } }

/-- What holds of every context, and of a new one, and is kept by the turn of a call holds after the
call. -/
theorem forall_next {P : Context → Prop} (hs : ∀ ctx ∈ s.batchContext, P ctx)
    (hnew : P (newContext s)) (hturn : ∀ batchCtx ctx, c.batchCtx? = some batchCtx →
      s.context? batchCtx = some ctx → P (MSRSample.turn driverMask grow s ctx c)) :
    ∀ ctx ∈ (next driverMask grow s c).batchContext, P ctx := by
  cases hc : c.batchCtx? with
  | none =>
    cases c with
    | createBatchContext =>
      intro ctx hctx
      obtain hctx | hctx := mem_append.mp hctx
      · exact hs ctx hctx
      · rw [mem_singleton.mp hctx]
        exact hnew
    | others registers => exact hs
    | _ => cases hc
  | some batchCtx =>
    cases hctx : s.context? batchCtx with
    | none =>
      rw [next_none hc hctx]
      exact hs
    | some ctx =>
      rw [(next_some hc hctx).1]
      intro ctx' hctx'
      obtain hctx' | rfl := mem_or_eq_of_mem_set hctx'
      · exact hs ctx' hctx'
      · exact hturn batchCtx ctx hc hctx

theorem next_const (driverMask : BitVec 32 → BitVec 64) (grow : ℕ → ℕ) (s : MSRIOImp) (c : Call) :
    (next driverMask grow s c).numCpu = s.numCpu ∧
      (next driverMask grow s c).isBatchEnabled = s.isBatchEnabled := by
  cases hc : c.batchCtx? with
  | none =>
    cases c with
    | createBatchContext => exact ⟨rfl, rfl⟩
    | others registers => exact ⟨rfl, rfl⟩
    | _ => cases hc
  | some batchCtx =>
    cases hctx : s.context? batchCtx with
    | none =>
      rw [next_none hc hctx]
      exact ⟨rfl, rfl⟩
    | some ctx => exact (next_some hc hctx).2

theorem settled_new (numCpu : ℕ) (isBatchEnabled : Bool) (writes : MSRIO)
    (h : writes.isBatchRead = false) :
    Context.Settled numCpu isBatchEnabled { writes := writes } where
  reads _ hop := absurd hop not_mem_nil
  unread _ := h
  read _ hlast := nomatch hlast
  cpus hlast := absurd rfl hlast

theorem settled_next (h : s.Settled) (hcalm : Calm driverMask s c) :
    (next driverMask grow s c).Settled := by
  obtain ⟨hnumCpu, henabled⟩ := next_const driverMask grow s c
  unfold MSRIOImp.Settled
  rw [hnumCpu, henabled]
  refine forall_next h (settled_new _ _ _ rfl) fun batchCtx ctx hc hctx => ?_
  exact (h ctx (mem_of_context? hctx)).turn (calm_iff.mp hcalm batchCtx ctx hc hctx)

theorem sampleRight_iff (h : s.context? batchCtx = some ctx) :
    s.SampleRight batchIdx batchCtx ↔ ctx.Right batchIdx := by
  unfold MSRIOImp.SampleRight MSRIOImp.sample Context.Right
  rw [h]
  dsimp only
  cases ctx.sample batchIdx with
  | throws ex => rfl
  | undefined => rfl
  | value raw =>
    constructor
    · rintro ⟨_, values, hctx, hvalues⟩
      cases hctx
      exact ⟨values, hvalues⟩
    · rintro ⟨values, hvalues⟩
      exact ⟨ctx, values, rfl, hvalues⟩

theorem MSRIOImp.Settled.sampleRight (h : s.Settled)
    (hasked : s.Asked batchIdx batchCtx) : s.SampleRight batchIdx batchCtx := by
  cases hctx : s.context? batchCtx with
  | none =>
    unfold MSRIOImp.SampleRight MSRIOImp.sample
    rw [hctx]
    trivial
  | some ctx =>
    rw [sampleRight_iff hctx]
    exact (h ctx (mem_of_context? hctx)).allRight batchIdx (hasked ctx hctx)

theorem calm_of_sampleRight (h : s.Settled)
    (hright : ∀ batchCtx batchIdx, (next driverMask grow s c).Asked batchIdx batchCtx →
      (next driverMask grow s c).SampleRight batchIdx batchCtx) : Calm driverMask s c := by
  rw [calm_iff]
  intro batchCtx ctx hc hctx
  have hnext : (next driverMask grow s c).context? batchCtx =
      some (MSRSample.turn driverMask grow s ctx c) := context?_next hc hctx
  have hturn : (MSRSample.turn driverMask grow s ctx c).AllRight := by
    intro batchIdx hasked
    rw [← sampleRight_iff hnext]
    refine hright batchCtx batchIdx fun ctx' hctx' => ?_
    cases hnext.symm.trans hctx'
    exact hasked
  exact (h ctx (mem_of_context? hctx)).calmTurn hturn

/-- The flag of a context that has been read is set. -/
structure Context.Flagged (ctx : Context) : Prop where
  reads : ∀ op ∈ ctx.readBatchOp, op.isrdmsr = true
  flag : ctx.lastRead ≠ none → ctx.writes.isBatchRead = true

/-- Every call keeps the flag of a context that has been read. -/
theorem Context.Flagged.turn (h : ctx.Flagged) (c : Call) :
    (MSRSample.turn driverMask grow s ctx c).Flagged := by
  cases c with
  | createBatchContext => exact h
  | others registers => exact h
  | addRead cpuIdx offset batchCtx =>
    obtain ⟨hwrites, hlast, hops⟩ := pushBack_eq ctx grow
      ⟨BitVec.ofInt 16 cpuIdx, true, 0, offset.setWidth 32, 0, 0⟩
    refine ⟨fun op hop => ?_, fun hread => ?_⟩
    · obtain hop | hop := mem_append.mp (hops ▸ hop)
      · exact h.reads op hop
      · rw [mem_singleton.mp hop]
    · exact (congrArg MSRIO.isBatchRead hwrites).trans
        (h.flag fun hnone => hread (hlast.trans hnone))
  | addWrite cpuIdx offset reads batchCtx =>
    exact ⟨h.reads, fun hread => (final_addWrite_isBatchRead cpuIdx offset reads
      (s.machine ctx)).trans (h.flag hread)⟩
  | adjust batchIdx rawValue writeMask batchCtx =>
    exact ⟨h.reads, fun hread => (final_adjust_isBatchRead batchIdx rawValue writeMask
      (s.machine ctx)).trans (h.flag hread)⟩
  | writeBatch batchCtx first second =>
    refine ⟨h.reads, fun hread => ?_⟩
    refine (final_writeBatch_isBatchRead first second (s.machine ctx)).trans ?_
    show (_ || ctx.writes.isBatchRead) = true
    rw [h.flag hread, Bool.or_true]
  | readBatch batchCtx o =>
    have hreads : ∀ op ∈ (afterReads o s.registers ctx).readBatchOp, op.isrdmsr = true := by
      intro op hop
      obtain ⟨op, hmem, rfl⟩ := mem_map.mp hop
      rw [readOp_isrdmsr]
      exact h.reads op hmem
    refine (wp_final (P := Context.Flagged)).mp ?_
    refine wp_mono (wp_readContext h.reads o) ?_ ?_
    · rintro - _ ⟨rfl, -, -⟩
      exact ⟨hreads, fun _ => rfl⟩
    · rintro - _ (rfl | ⟨rfl, -, -⟩)
      · exact ⟨hreads, h.flag⟩
      · exact ⟨h.reads, h.flag⟩

theorem sample_of_not_asked (h : ∀ ctx ∈ s.batchContext, ctx.Flagged)
    (hasked : ¬ s.Asked batchIdx batchCtx) : s.sample batchIdx batchCtx = .undefined := by
  unfold MSRIOImp.Asked at hasked
  push Not at hasked
  obtain ⟨ctx, hctx, hadded, hread⟩ := hasked
  have hflag := (h ctx (mem_of_context? hctx)).flag hread
  unfold MSRIOImp.sample
  rw [hctx]
  dsimp only
  unfold Context.sample
  rw [if_neg (by simp [hflag])]
  split_ifs with hundefined
  · rfl
  · rw [not_or, not_lt] at hundefined
    have hnone : ctx.readBatchOp[batchIdx.toNat]? = none :=
      getElem?_eq_none (Nat.not_lt.mp fun hlt => hadded ⟨hundefined.2, hlt⟩)
    rw [hnone]

/-- The state after calls. -/
def after (driverMask : BitVec 32 → BitVec 64) (grow : ℕ → ℕ) (numCpu : ℕ) (isBatchEnabled : Bool)
    (registers : Registers) (calls : List Call) : MSRIOImp :=
  calls.foldl (next driverMask grow) (start numCpu isBatchEnabled registers)

variable {registers : Registers} {calls : List Call}

theorem after_concat (before : List Call) (c : Call) :
    after driverMask grow numCpu isBatchEnabled registers (before ++ [c]) =
      next driverMask grow (after driverMask grow numCpu isBatchEnabled registers before) c :=
  foldl_concat _ _ _ _

/-- As long as the calls are calm, the object is settled. -/
theorem settled_after (hcalm : ∀ before c, before ++ [c] <+: calls →
      (after driverMask grow numCpu isBatchEnabled registers before).Settled →
        Calm driverMask (after driverMask grow numCpu isBatchEnabled registers before) c)
    {before : List Call} (hbefore : before <+: calls) :
    (after driverMask grow numCpu isBatchEnabled registers before).Settled := by
  induction before using List.reverseRecOn with
  | nil =>
    intro ctx hctx
    rw [mem_singleton.mp hctx]
    exact settled_new _ _ _ rfl
  | append_singleton before c ih =>
    have hsettled := ih ((prefix_append before [c]).trans hbefore)
    rw [after_concat]
    exact settled_next hsettled (hcalm before c hbefore hsettled)

theorem flagged_after :
    ∀ ctx ∈ (after driverMask grow numCpu isBatchEnabled registers calls).batchContext,
      ctx.Flagged := by
  have hnew : ∀ writes, Context.Flagged { writes := writes } := fun writes =>
    ⟨fun _ hop => absurd hop not_mem_nil, fun hread => absurd rfl hread⟩
  induction calls using List.reverseRecOn with
  | nil =>
    intro ctx hctx
    rw [mem_singleton.mp hctx]
    exact hnew _
  | append_singleton calls c ih =>
    rw [after_concat]
    exact forall_next ih (hnew _) fun _ ctx _ hctx => (ih ctx (mem_of_context? hctx)).turn c

end Settled

/-- **In a run, the samples are right just when all calls are calm.**  These are the samples of the
indices that have been added, and of any index before a batch has been read; another index is looked
up where there is nothing. -/
theorem sample_right_iff (driverMask : BitVec 32 → BitVec 64) (grow : ℕ → ℕ) (numCpu : ℕ)
    (isBatchEnabled : Bool) (registers : Registers) (calls : List Call) :
    ((∀ before, before <+: calls → ∀ batchCtx batchIdx,
          (after driverMask grow numCpu isBatchEnabled registers before).Asked batchIdx batchCtx →
          (after driverMask grow numCpu isBatchEnabled registers before).SampleRight batchIdx
            batchCtx) ↔
        ∀ before c, before ++ [c] <+: calls →
          Calm driverMask (after driverMask grow numCpu isBatchEnabled registers before) c) ∧
      ∀ batchCtx batchIdx,
        ¬ (after driverMask grow numCpu isBatchEnabled registers calls).Asked batchIdx batchCtx →
        (after driverMask grow numCpu isBatchEnabled registers calls).sample batchIdx batchCtx =
          .undefined := by
  refine ⟨⟨fun hright => ?_, fun hcalm => ?_⟩, fun _ _ => sample_of_not_asked flagged_after⟩
  · -- by induction on the run: the object is settled before the call, and right after it
    have hstep : ∀ before c, before ++ [c] <+: calls →
        (after driverMask grow numCpu isBatchEnabled registers before).Settled →
          Calm driverMask (after driverMask grow numCpu isBatchEnabled registers before) c := by
      intro before c hbefore hsettled
      have hafter := hright _ hbefore
      rw [after_concat] at hafter
      exact calm_of_sampleRight hsettled hafter
    intro before c hbefore
    refine hstep before c hbefore (settled_after hstep ?_)
    exact (prefix_append before [c]).trans hbefore
  · intro before hbefore batchCtx batchIdx hasked
    exact (settled_after (fun before c h _ => hcalm before c h) hbefore).sampleRight hasked

/-- `std::vector` makes room for twice as many elements. -/
def double (capacity : ℕ) : ℕ := max 1 (2 * capacity)

/-- The state after calls on an object that reads the files of one cpu. -/
def afterCalls (calls : List Call) : MSRIOImp :=
  after (fun _ => 0) double 1 false (fun _ => 7) calls

/-- The operations are performed, but the ring fails. -/
def performedThenFailed : Outcome := ⟨-1, fun _ => 0, fun _ => true, fun _ _ => rfl⟩

/-- A batch that is written sets the flag of a context that has not been read. -/
def writeOnly : List Call := [.writeBatch 0 Machine.allPerformed Machine.allPerformed]

/-- A read is added after the batch has been read, and the others move. -/
def addLater : List Call :=
  [.addRead 0 0x10#64 0, .readBatch 0 Machine.allPerformed, .addRead 0 0x20#64 0]

/-- The register changes, and a batch reads it and fails. -/
def failLater : List Call :=
  [.addRead 0 0x10#64 0, .readBatch 0 Machine.allPerformed, .others fun _ => 8,
    .readBatch 0 performedThenFailed]

/-- Samples without a batch that has been read, of memory that has been given back, and of a batch
that has failed. -/
theorem not_sampleRight :
    ((afterCalls writeOnly).Asked 0 0 ∧ ¬ (afterCalls writeOnly).SampleRight 0 0) ∧
      ((afterCalls addLater).Asked 0 0 ∧ ¬ (afterCalls addLater).SampleRight 0 0) ∧
        (afterCalls failLater).Asked 0 0 ∧ ¬ (afterCalls failLater).SampleRight 0 0 := by
  refine ⟨⟨?_, ?_⟩, ⟨?_, ?_⟩, ?_, ?_⟩
  · intro ctx hctx
    cases hctx
    exact .inr rfl
  · exact id
  · intro ctx hctx
    cases hctx
    exact .inl ⟨le_rfl, by decide⟩
  · exact id
  · intro ctx hctx
    cases hctx
    exact .inl ⟨le_rfl, by decide⟩
  · rintro ⟨ctx, values, hctx, hvalues, hraw⟩
    cases hctx
    cases hvalues
    cases hraw

end Geopm.Pio.MSRSample
