import Geopm.Exception
import Geopm.Lib.Lts
import Geopm.Lib.Mask
import Geopm.Lib.Prog

/-!
# Batched writes of `SSTIO`

`SSTIOImp` writes mailboxes and registers of the power unit.  A batch first reads what the slots
hold, in groups as large as the driver allows, and then writes the slots, with the bits that have
been adjusted and some of the bits that have been read.

* `Channel` : the slots of one kind, mailboxes or registers; `SSTIOImp` : the object and the device;
* `Channel.writeBatch`, `SSTIOImp.writeBatch` : a batch; `writeOnce` : a single write;
* `Channel.Matched` : the slots of later groups read nothing that matters, and nothing is left from
  earlier batches;
* `SSTIOImp.writeBatch_eq_writeOnce` : a batch that succeeds sends what single writes send, just when
  its slots are matched.
-/

namespace Geopm.Pio

open Prog (zoom wp wp_bind wp_zoom wp_modify wp_mono wp_get final wp_final wp_set wp_pure)
open List hiding get modify set

/-- `sst_mbox_interface_s`. -/
structure MboxInterface where
  cpuIndex : BitVec 32
  mboxInterfaceParam : BitVec 32
  writeValue : BitVec 32
  readValue : BitVec 32
  command : BitVec 16
  subcommand : BitVec 16
deriving DecidableEq

/-- `sst_mmio_interface_s`. -/
structure MmioInterface where
  isWrite : BitVec 32
  cpuIndex : BitVec 32
  registerOffset : BitVec 32
  value : BitVec 32
deriving DecidableEq

/-- A kind of messages: its name, whether a call is repeated when the device is busy, and the value
that is sent with a message. -/
structure MessageKind (E : Type) where
  name : String
  retries : Bool
  value : E → BitVec 32
  setValue : BitVec 32 → E → E
  value_setValue : ∀ x e, value (setValue x e) = x
  setValue_setValue : ∀ x y e, setValue x (setValue y e) = setValue x e
  setValue_value : ∀ e, setValue (value e) e = e

/-- The messages to mailboxes. -/
def MessageKind.mbox : MessageKind MboxInterface where
  name := "mbox"
  retries := true
  value := MboxInterface.writeValue
  setValue x e := { e with writeValue := x }
  value_setValue _ _ := rfl
  setValue_setValue _ _ _ := rfl
  setValue_value _ := rfl

/-- The messages to registers. -/
def MessageKind.mmio : MessageKind MmioInterface where
  name := "mmio"
  retries := false
  value := MmioInterface.value
  setValue x e := { e with value := x }
  value_setValue _ _ := rfl
  setValue_setValue _ _ _ := rfl
  setValue_value _ := rfl

/-- An `ioctl` of the driver: an `errno`, or what it has read for each message of the batch; and the
device after it. -/
abbrev Ioctl (E D : Type) := List E → D → Except ℤ (ℕ → BitVec 32) × D

/-- `EBUSY`. -/
def ebusy : ℤ := 16

/-- An adjustment of a slot. -/
structure SlotAdjustment where
  slot : ℕ
  writeValue : BitVec 32
  writeMask : BitVec 32

/-- The slots of one kind.  The rest is the history: what has been adjusted so far, and what the last
batch has read and sent. -/
structure Channel (E : Type) where
  writeInterfaces : List E := []
  rmwInterfaces : List E := []
  rmwReadMasks : List (BitVec 32) := []
  rmwWriteMasks : List (BitVec 32) := []
  adjusted : List SlotAdjustment := []
  read : List (BitVec 32) := []
  sent : List E := []

/-- `ioctl_structs_from_vector`; the limit is not zero. -/
def ioctlStructsFromVector {E : Type} (limit : ℕ+) : List E → List (List E)
  | [] => []
  | command :: commands =>
    (command :: commands).take limit ::
      ioctlStructsFromVector limit ((command :: commands).drop limit)
termination_by commands => commands.length
decreasing_by
  have := limit.pos
  simp only [length_drop, length_cons]
  omega

/-- The value of a write: the bits that are written, and those that have been read, belong to the
read mask and are not written. -/
def onceValue (writeValue writeMask readMask readValue : BitVec 32) : BitVec 32 :=
  writeValue ||| (~~~writeMask &&& (readValue &&& readMask))

section Sending

variable {E D : Type} (k : MessageKind E) (ioctl : Ioctl E D)

/-- A batch is sent, and once more if the device is busy. -/
def send (failure : String) (batch : List E) : EStateM Exception D (ℕ → BitVec 32) := do
  let d ← get
  let (result, d) := ioctl batch d
  set d
  match result with
  | .ok values => pure values
  | .error errno =>
    if k.retries = true ∧ errno = ebusy then do
      let (result, d) := ioctl batch d
      set d
      match result with
      | .ok values => pure values
      | .error errno => throw ⟨failure, [], .errno errno⟩
    else throw ⟨failure, [], .errno errno⟩

variable {k ioctl}

end Sending

namespace Channel

section Batches

variable {E D : Type} (k : MessageKind E) (ioctl : Ioctl E D)

/-- The loop that modifies the values to be written, after a group has been read.  It counts from
zero in every group. -/
def merge (numEntries : ℕ) (values : ℕ → BitVec 32) (c : Channel E) : Channel E :=
  { c with
    writeInterfaces := c.writeInterfaces.mapIdx fun i e =>
      if i < numEntries then
        k.setValue (k.value e ||| (~~~c.rmwWriteMasks.getD i 0 &&&
          (values i &&& c.rmwReadMasks.getD i 0))) e
      else e
    read := c.read ++ (List.range numEntries).map values }

/-- The groups that are read. -/
def readGroups : List (List E) → EStateM Exception (Channel E × D) Unit
  | [] => pure ()
  | batch :: batches => do
    let values ← zoom Prod.snd (fun d s => (s.1, d))
      (send k ioctl ("sstioimp::write_batch() pre-write " ++ k.name ++ " read failed") batch)
    modify fun s => (s.1.merge k batch.length values, s.2)
    readGroups batches

/-- The groups that are written. -/
def writeGroups : List (List E) → EStateM Exception (Channel E × D) Unit
  | [] => pure ()
  | batch :: batches => do
    let _ ← zoom Prod.snd (fun d s => (s.1, d))
      (send k ioctl ("sstioimp::write_batch() " ++ k.name ++ " write failed") batch)
    modify fun s => ({ s.1 with sent := s.1.sent ++ batch }, s.2)
    writeGroups batches

/-- `write_batch`, for one kind of messages. -/
def writeBatch (limit : ℕ+) : EStateM Exception (Channel E × D) Unit := do
  modify fun s => ({ s.1 with read := [], sent := [] }, s.2)
  let s ← get
  if s.1.writeInterfaces = [] then pure ()
  else do
    readGroups k ioctl (ioctlStructsFromVector limit s.1.rmwInterfaces)
    let s ← get
    writeGroups k ioctl (ioctlStructsFromVector limit s.1.writeInterfaces)

/-- A new slot. -/
def add (writeMessage readMessage : E) (readMask : BitVec 32) (c : Channel E) : Channel E :=
  { c with
    writeInterfaces := c.writeInterfaces ++ [writeMessage]
    rmwInterfaces := c.rmwInterfaces ++ [readMessage]
    rmwReadMasks := c.rmwReadMasks ++ [readMask]
    rmwWriteMasks := c.rmwWriteMasks ++ [0] }

/-- `adjust`, for a slot. -/
def adjust (slot : ℕ) (writeValue writeMask : BitVec 32) (c : Channel E) : Channel E :=
  { c with
    writeInterfaces := c.writeInterfaces.modify slot fun e =>
      k.setValue ((k.value e &&& ~~~writeMask) ||| writeValue) e
    rmwWriteMasks := c.rmwWriteMasks.modify slot fun m => m ||| writeMask
    adjusted := c.adjusted ++ [⟨slot, writeValue, writeMask⟩] }

end Batches

/-! ### What a batch sends -/

/-- The bits that have been adjusted so far in a slot, and their mask. -/
def adjustedValue (slot : ℕ) (adjusted : List SlotAdjustment) : BitVec 32 :=
  adjusted.foldl (fun v a => if a.slot = slot then Mask.overlay a.writeMask a.writeValue v else v) 0

def adjustedMask (slot : ℕ) (adjusted : List SlotAdjustment) : BitVec 32 :=
  adjusted.foldl (fun m a => if a.slot = slot then m ||| a.writeMask else m) 0

/-- The value that a single write would send for a slot, when it has read a value. -/
def once {E : Type} (c : Channel E) (i : ℕ) (readValue : BitVec 32) : BitVec 32 :=
  onceValue (adjustedValue i c.adjusted) (adjustedMask i c.adjusted) (c.rmwReadMasks.getD i 0)
    readValue

/-- The bits of a value that has been read for a slot which a write takes over. -/
def taken {E : Type} (c : Channel E) (i : ℕ) (readValue : BitVec 32) : BitVec 32 :=
  ~~~adjustedMask i c.adjusted &&& (readValue &&& c.rmwReadMasks.getD i 0)

/-- All that has been read at the places of a group which a slot has. -/
def mixed (limit : ℕ) (reads : List (BitVec 32)) (i : ℕ) : BitVec 32 :=
  reads.zipIdx.foldl (fun b p => if p.2 % limit = i then b ||| p.1 else b) 0

/-- What is read for the slots gives what single writes give: no bit that is stored in a slot is
missing there, nor a bit that is read at its place in another group, and what is read for a slot of a
later group is stored in it. -/
structure Matched {E : Type} (k : MessageKind E) (limit : ℕ) (c : Channel E) (reads : List (BitVec 32)) :
    Prop where
  stored : ∀ i e r, c.writeInterfaces[i]? = some e → reads[i]? = some r →
    k.value e &&& ~~~c.once i r = 0#32
  place : ∀ i e r j r', c.writeInterfaces[i]? = some e → reads[i]? = some r → reads[j]? = some r' →
    j % limit = i → c.taken i r' &&& ~~~c.once i r = 0#32
  later : ∀ i e r, c.writeInterfaces[i]? = some e → reads[i]? = some r → limit ≤ i →
    c.taken i r &&& ~~~k.value e = 0#32

section Sent

variable {E D : Type} {k : MessageKind E} {ioctl : Ioctl E D} {c c' : Channel E} {d : D} {limit : ℕ+}

theorem mixed_concat (limit : ℕ) (reads : List (BitVec 32)) (r : BitVec 32) (i : ℕ) :
    mixed limit (reads ++ [r]) i =
      if reads.length % limit = i then mixed limit reads i ||| r else mixed limit reads i := by
  unfold mixed
  rw [zipIdx_append, List.foldl_append]
  simp

variable {reads : List (BitVec 32)}

/-- A group of values is read. -/
theorem mixed_append {limit : ℕ} (hreads : reads.length % limit = 0)
    (values : ℕ → BitVec 32) {m : ℕ} (hm : m ≤ limit) (i : ℕ) :
    mixed limit (reads ++ (List.range m).map values) i =
      if i < m then mixed limit reads i ||| values i else mixed limit reads i := by
  induction m with
  | zero => simp
  | succ m ih =>
    have hplace : (reads.length + m) % limit = m := by
      rw [Nat.add_mod, hreads, Nat.zero_add, Nat.mod_mod, Nat.mod_eq_of_lt hm]
    rw [range_succ, map_append, ← append_assoc, map_singleton, mixed_concat,
      ih (Nat.le_of_succ_le hm), length_append, length_map, length_range, hplace]
    by_cases hi : m = i
    · subst hi
      rw [if_pos rfl, if_neg (Nat.lt_irrefl m), if_pos (Nat.lt_succ_self m)]
    · rw [if_neg hi]
      split_ifs <;> first | rfl | omega

theorem exists_concat {α : Type} {xs : List α} {x : α} {P : ℕ → α → Prop} :
    (∃ j y, (xs ++ [x])[j]? = some y ∧ P j y) ↔ (∃ j y, xs[j]? = some y ∧ P j y) ∨ P xs.length x := by
  constructor
  · rintro ⟨j, y, hj, hy⟩
    rw [getElem?_append] at hj
    split_ifs at hj with hlt
    · exact Or.inl ⟨j, y, hj, hy⟩
    · rw [getElem?_singleton] at hj
      split_ifs at hj with hzero
      obtain rfl : j = xs.length := by omega
      exact Or.inr (Option.some.inj hj ▸ hy)
  · rintro (⟨j, y, hj, hy⟩ | hx)
    · obtain ⟨hlt, -⟩ := List.getElem?_eq_some_iff.mp hj
      exact ⟨j, y, (getElem?_append_left hlt).trans hj, hy⟩
    · exact ⟨xs.length, x, getElem?_concat_length, hx⟩

theorem mixed_bit {limit : ℕ} {i b : ℕ} {hb : b < 32} :
    (mixed limit reads i)[b] = true ↔
      ∃ j r, reads[j]? = some r ∧ j % limit = i ∧ r[b] = true := by
  induction reads using List.reverseRecOn with
  | nil => simp [mixed]
  | append_singleton reads r ih =>
    rw [mixed_concat, exists_concat]
    split_ifs with hi
    · rw [BitVec.getElem_or, Bool.or_eq_true, ih]
      simp only [hi, true_and]
    · rw [ih]
      simp only [hi, false_and, or_false]

/-- The slots have the same masks and have been adjusted in the same way, and as much has been
sent. -/
structure SameSlots (c c' : Channel E) : Prop where
  rmwInterfaces : c'.rmwInterfaces = c.rmwInterfaces
  rmwReadMasks : c'.rmwReadMasks = c.rmwReadMasks
  rmwWriteMasks : c'.rmwWriteMasks = c.rmwWriteMasks
  adjusted : c'.adjusted = c.adjusted
  sent : c'.sent = c.sent

/-- What the slots hold when the groups up to here have been read. -/
structure Merged (k : MessageKind E) (limit : ℕ) (c c' : Channel E) : Prop where
  interfaces : c'.writeInterfaces = c.writeInterfaces.mapIdx fun i e =>
    k.setValue (k.value e ||| (~~~c.rmwWriteMasks.getD i 0 &&&
      (mixed limit c'.read i &&& c.rmwReadMasks.getD i 0))) e
  same : SameSlots c c'

theorem Merged.refl (hread : c.read = []) : Merged k limit c c where
  interfaces := by
    have hzero : ∀ i, mixed limit c.read i = 0#32 := fun i => by rw [hread]; rfl
    refine (mapIdx_eq_iff.mpr fun i => ?_).symm
    cases c.writeInterfaces[i]? with
    | none => rfl
    | some e =>
      rw [Option.map_some, hzero]
      simp [k.setValue_value]
  same := ⟨rfl, rfl, rfl, rfl, rfl⟩

theorem Merged.merge (h : Merged k limit c c') (hread : c'.read.length % limit = 0)
    (values : ℕ → BitVec 32) {m : ℕ} (hm : m ≤ limit) :
    Merged k limit c (c'.merge k m values) where
  interfaces := by
    change (c'.writeInterfaces.mapIdx fun i e => _) = c.writeInterfaces.mapIdx fun i e =>
      k.setValue (k.value e ||| (~~~c.rmwWriteMasks.getD i 0 &&&
        (mixed limit (c'.read ++ (List.range m).map values) i &&& c.rmwReadMasks.getD i 0))) e
    rw [h.interfaces, mapIdx_mapIdx, h.same.rmwWriteMasks, h.same.rmwReadMasks]
    refine congrArg (fun f => c.writeInterfaces.mapIdx f) (funext fun i => funext fun e => ?_)
    rw [mixed_append hread values hm]
    dsimp only [Function.comp]
    split_ifs with hi
    · rw [k.value_setValue, k.setValue_setValue, BitVec.or_assoc, ← BitVec.and_or_distrib_left,
        ← BitVec.and_or_distrib_right]
    · rfl
  same := ⟨h.same.rmwInterfaces, h.same.rmwReadMasks, h.same.rmwWriteMasks, h.same.adjusted,
    h.same.sent⟩

/-! ### The two stages -/

/-- A batch is sent, and the device changes. -/
theorem wp_send {failure : String} {batch : List E} {Q : (ℕ → BitVec 32) → D → Prop}
    {R : Exception → D → Prop} (hQ : ∀ values d, Q values d) (hR : ∀ e d, R e d) :
    wp (send k ioctl failure batch) Q R d := by
  unfold send wp
  split <;> simp [hQ, hR]

theorem wp_readGroups (commands : List E) (hread : c'.read.length % limit = 0 ∨ commands = [])
    (h : Merged k limit c c') {R : Exception → Channel E × D → Prop}
    (hR : ∀ e c₁ d, SameSlots c c₁ → Merged k limit c c₁ → R e (c₁, d)) :
    wp (readGroups k ioctl (ioctlStructsFromVector limit commands))
      (fun _ s => Merged k limit c s.1 ∧ s.1.read.length = c'.read.length + commands.length)
      R (c', d) := by
  induction commands using ioctlStructsFromVector.induct limit generalizing c' d with
  | case1 =>
    rw [ioctlStructsFromVector]
    exact ⟨h, rfl⟩
  | case2 command commands ih =>
    rw [ioctlStructsFromVector]
    unfold readGroups
    rw [wp_bind, wp_zoom]
    refine wp_send (fun values d => ?_) fun e d => hR e c' d h.same h
    rw [wp_bind, wp_modify]
    have hzero : c'.read.length % limit = 0 := hread.resolve_right (cons_ne_nil _ _)
    have hlength : ((command :: commands).take limit).length =
        min (limit : ℕ) (command :: commands).length := length_take
    have hle : ((command :: commands).take limit).length ≤ limit := hlength ▸ Nat.min_le_left _ _
    have hread' : (c'.merge k ((command :: commands).take limit).length values).read.length =
        c'.read.length + ((command :: commands).take limit).length := by
      simp [merge]
    refine wp_mono (ih ?_ (h.merge hzero values hle)) ?_ fun _ _ h => h
    · rw [hread', hlength]
      obtain hlt | hge := Nat.lt_or_ge (command :: commands).length (limit : ℕ)
      · exact Or.inr (drop_eq_nil_of_le hlt.le)
      · rw [Nat.min_eq_left hge, Nat.add_mod_right]
        exact Or.inl hzero
    · rintro - s ⟨hmerged, hs⟩
      refine ⟨hmerged, hs.trans ?_⟩
      rw [hread', length_drop, hlength]
      omega

theorem flatten_ioctlStructsFromVector (limit : ℕ+) (commands : List E) :
    (ioctlStructsFromVector limit commands).flatten = commands := by
  induction commands using ioctlStructsFromVector.induct limit with
  | case1 => rw [ioctlStructsFromVector]; rfl
  | case2 command commands ih =>
    rw [ioctlStructsFromVector, flatten_cons, ih, take_append_drop]

theorem wp_writeGroups (batches : List (List E)) {R : Exception → Channel E × D → Prop}
    (hR : ∀ e sent d, R e ({ c with sent := sent }, d)) :
    wp (writeGroups k ioctl batches)
      (fun _ s => s.1 = { c with sent := c.sent ++ batches.flatten }) R (c, d) := by
  induction batches generalizing c d with
  | nil =>
    change c = { c with sent := c.sent ++ [] }
    rw [append_nil]
  | cons batch batches ih =>
    unfold writeGroups
    rw [wp_bind, wp_zoom]
    refine wp_send (fun values d => ?_) fun e d => hR e c.sent d
    rw [wp_bind, wp_modify]
    refine wp_mono (ih fun e sent d => hR e sent d) ?_ fun _ _ h => h
    rintro - s hs
    rw [hs, flatten_cons, append_assoc]

/-- Everything but the values and the history of the last batch is as it was, and the values have only
gained bits. -/
structure Kept (k : MessageKind E) (c c' : Channel E) : Prop where
  rmwInterfaces : c'.rmwInterfaces = c.rmwInterfaces
  rmwReadMasks : c'.rmwReadMasks = c.rmwReadMasks
  rmwWriteMasks : c'.rmwWriteMasks = c.rmwWriteMasks
  adjusted : c'.adjusted = c.adjusted
  length : c'.writeInterfaces.length = c.writeInterfaces.length
  gained : ∀ (i : ℕ) e', c'.writeInterfaces[i]? = some e' →
    ∃ e, c.writeInterfaces[i]? = some e ∧ k.value e &&& ~~~k.value e' = 0#32

/-- A batch that succeeds sends each slot once, with what its place has read. -/
structure Sent (k : MessageKind E) (limit : ℕ) (c c' : Channel E) : Prop where
  read : c'.read.length = c.rmwInterfaces.length
  sent : c'.sent = c.writeInterfaces.mapIdx fun i e =>
    k.setValue (k.value e ||| (~~~c.rmwWriteMasks.getD i 0 &&&
      (mixed limit c'.read i &&& c.rmwReadMasks.getD i 0))) e

theorem Merged.kept (h : Merged k limit { c with read := [], sent := [] } c') : Kept k c c' where
  rmwInterfaces := h.same.rmwInterfaces
  rmwReadMasks := h.same.rmwReadMasks
  rmwWriteMasks := h.same.rmwWriteMasks
  adjusted := h.same.adjusted
  length := by rw [h.interfaces, length_mapIdx]
  gained i e' he' := by
    rw [h.interfaces, getElem?_mapIdx, Option.map_eq_some_iff] at he'
    obtain ⟨e, he, rfl⟩ := he'
    refine ⟨e, he, Mask.and_not_eq_zero_iff.mpr fun j hj hbit => ?_⟩
    rw [k.value_setValue, BitVec.getElem_or, hbit, Bool.true_or]

theorem Kept.refl : Kept k c c :=
  ⟨rfl, rfl, rfl, rfl, rfl, fun _ e he => ⟨e, he, BitVec.and_not_self _⟩⟩

/-- What a batch does for one kind of messages. -/
theorem wp_writeBatch (hlength : c.rmwInterfaces.length = c.writeInterfaces.length) :
    wp (writeBatch k ioctl limit) (fun _ s => Kept k c s.1 ∧ Sent k limit c s.1)
      (fun _ s => Kept k c s.1) (c, d) := by
  unfold writeBatch
  rw [wp_bind, wp_modify, wp_bind, wp_get, Prog.wp_ite]
  have hrefl : Merged k limit { c with read := [], sent := [] } { c with read := [], sent := [] } :=
    Merged.refl rfl
  constructor
  · intro hempty
    change c.writeInterfaces = [] at hempty
    refine ⟨hrefl.kept, ?_, ?_⟩
    · rw [hlength, hempty]
      rfl
    · rw [hempty]
      rfl
  · intro _
    rw [wp_bind]
    refine wp_mono (wp_readGroups (c := { c with read := [], sent := [] }) c.rmwInterfaces
      (Or.inl (Nat.zero_mod _)) hrefl
      (R := fun _ s => Kept k c s.1) fun e c₁ d _ h => h.kept) ?_ fun _ _ h => h
    rintro - ⟨c₁, d⟩ ⟨hmerged, hread⟩
    rw [wp_bind, wp_get]
    have hkept := hmerged.kept
    refine wp_mono (wp_writeGroups (c := c₁) (R := fun _ s => Kept k c s.1) _
      fun e sent d => ⟨hkept.rmwInterfaces, hkept.rmwReadMasks, hkept.rmwWriteMasks, hkept.adjusted,
        hkept.length, hkept.gained⟩) ?_ fun _ _ h => h
    rintro - ⟨c', d'⟩ hc'
    obtain rfl : c' = _ := hc'
    refine ⟨⟨hkept.rmwInterfaces, hkept.rmwReadMasks, hkept.rmwWriteMasks, hkept.adjusted,
      hkept.length, hkept.gained⟩, hread.trans (Nat.zero_add _), ?_⟩
    change c₁.sent ++ (ioctlStructsFromVector limit c₁.writeInterfaces).flatten = _
    rw [flatten_ioctlStructsFromVector, hmerged.same.sent]
    exact hmerged.interfaces

/-! ### The invariant -/

/-- The masks are those of the adjustments, and each slot holds the bits that have been adjusted. -/
structure Inv (k : MessageKind E) (c : Channel E) : Prop where
  rmwInterfaces : c.rmwInterfaces.length = c.writeInterfaces.length
  writeMasks : c.rmwWriteMasks.length = c.writeInterfaces.length
  slots : ∀ a ∈ c.adjusted, a.slot < c.writeInterfaces.length
  masks : ∀ i, c.rmwWriteMasks.getD i 0 = adjustedMask i c.adjusted
  holds : ∀ (i : ℕ) e, c.writeInterfaces[i]? = some e →
    adjustedValue i c.adjusted &&& ~~~k.value e = 0#32

theorem inv_empty : Inv k {} where
  rmwInterfaces := rfl
  writeMasks := rfl
  slots _ h := absurd h not_mem_nil
  masks _ := rfl
  holds _ _ h := nomatch h

theorem Inv.of_kept (h : Inv k c) (hkept : Kept k c c') : Inv k c' where
  rmwInterfaces := by rw [hkept.rmwInterfaces, hkept.length, h.rmwInterfaces]
  writeMasks := by rw [hkept.rmwWriteMasks, hkept.length, h.writeMasks]
  slots := by rw [hkept.adjusted, hkept.length]; exact h.slots
  masks := by rw [hkept.adjusted, hkept.rmwWriteMasks]; exact h.masks
  holds i e' he' := by
    obtain ⟨e, he, hgained⟩ := hkept.gained i e' he'
    have hholds := h.holds i e he
    rw [hkept.adjusted]
    rw [Mask.and_not_eq_zero_iff] at *
    exact fun j hj hbit => hgained j hj (hholds j hj hbit)

theorem adjustedValue_concat (slot : ℕ) (adjusted : List SlotAdjustment) (a : SlotAdjustment) :
    adjustedValue slot (adjusted ++ [a]) =
      if a.slot = slot then Mask.overlay a.writeMask a.writeValue (adjustedValue slot adjusted)
      else adjustedValue slot adjusted := by
  unfold adjustedValue
  rw [List.foldl_append]
  rfl

theorem adjustedMask_concat (slot : ℕ) (adjusted : List SlotAdjustment) (a : SlotAdjustment) :
    adjustedMask slot (adjusted ++ [a]) =
      if a.slot = slot then adjustedMask slot adjusted ||| a.writeMask
      else adjustedMask slot adjusted := by
  unfold adjustedMask
  rw [List.foldl_append]
  rfl

/-- Nothing has been adjusted in a slot that is not there yet. -/
theorem adjustedValue_eq_zero {slot : ℕ} {adjusted : List SlotAdjustment}
    (h : ∀ a ∈ adjusted, a.slot < slot) : adjustedValue slot adjusted = 0 := by
  unfold adjustedValue
  induction adjusted with
  | nil => rfl
  | cons a adjusted ih =>
    rw [foldl_cons, if_neg (h a mem_cons_self).ne]
    exact ih fun b hb => h b (mem_cons_of_mem _ hb)

theorem Inv.add (h : Inv k c) (writeMessage readMessage : E) (readMask : BitVec 32) :
    Inv k (c.add writeMessage readMessage readMask) where
  rmwInterfaces := by simp [Channel.add, h.rmwInterfaces]
  writeMasks := by simp [Channel.add, h.writeMasks]
  slots a ha := (h.slots a ha).trans (by simp [Channel.add])
  masks i := by
    change (c.rmwWriteMasks ++ [0]).getD i 0 = adjustedMask i c.adjusted
    rw [← h.masks i]
    simp only [getD_eq_getElem?_getD, getElem?_append, getElem?_singleton]
    split_ifs with hlt hzero
    · rfl
    · rw [getElem?_eq_none (not_lt.mp hlt)]
      rfl
    · rw [getElem?_eq_none (not_lt.mp hlt)]
  holds i e he := by
    change (c.writeInterfaces ++ [writeMessage])[i]? = some e at he
    rw [getElem?_append] at he
    split_ifs at he with hlt
    · exact h.holds i e he
    · have hzero : adjustedValue i c.adjusted = 0 :=
        adjustedValue_eq_zero fun a ha => (h.slots a ha).trans_le (not_lt.mp hlt)
      change adjustedValue i c.adjusted &&& _ = _
      rw [hzero]
      exact BitVec.zero_and

theorem Inv.adjust (h : Inv k c) {slot : ℕ} (hslot : slot < c.writeInterfaces.length)
    (writeValue writeMask : BitVec 32) : Inv k (c.adjust k slot writeValue writeMask) where
  rmwInterfaces := by simp [Channel.adjust, h.rmwInterfaces]
  writeMasks := by simp [Channel.adjust, h.writeMasks]
  slots a ha := by
    obtain ha | ha := mem_append.mp ha
    · exact (h.slots a ha).trans_eq (by simp [Channel.adjust])
    · rw [mem_singleton.mp ha]
      simpa [Channel.adjust] using hslot
  masks i := by
    change (c.rmwWriteMasks.modify slot fun m => m ||| writeMask).getD i 0 =
      adjustedMask i (c.adjusted ++ [⟨slot, writeValue, writeMask⟩])
    rw [adjustedMask_concat, ← h.masks i, getD_eq_getElem?_getD, getElem?_modify,
      getD_eq_getElem?_getD]
    by_cases hi : slot = i
    · subst hi
      rw [getElem?_eq_getElem (h.writeMasks ▸ hslot)]
      simp
    · cases c.rmwWriteMasks[i]? <;> simp [hi]
  holds i e he := by
    change (c.writeInterfaces.modify slot fun e =>
      k.setValue ((k.value e &&& ~~~writeMask) ||| writeValue) e)[i]? = some e at he
    rw [getElem?_modify, Option.map_eq_map, Option.map_eq_some_iff] at he
    obtain ⟨e', he', rfl⟩ := he
    have hholds := h.holds i e' he'
    change adjustedValue i (c.adjusted ++ [⟨slot, writeValue, writeMask⟩]) &&& _ = _
    rw [adjustedValue_concat]
    split_ifs with hi
    · rw [Mask.and_not_eq_zero_iff] at *
      intro j hj
      rw [k.value_setValue]
      have hbit := hholds j hj
      simp only [Mask.overlay, BitVec.getElem_or, BitVec.getElem_and, Bool.or_eq_true,
        Bool.and_eq_true]
      exact Or.imp_left fun hv => ⟨hbit hv.1, hv.2⟩
    · exact hholds

/-! ### When a batch sends what single writes send -/

/-- The value of a slot, and what single writes send, by their bits. -/
theorem Inv.matched_iff (h : Inv k c) {i : ℕ} {e : E} {r : BitVec 32}
    (he : c.writeInterfaces[i]? = some e) (hr : reads[i]? = some r) :
    k.value e ||| (~~~c.rmwWriteMasks.getD i 0 &&&
        (mixed limit reads i &&& c.rmwReadMasks.getD i 0)) = c.once i r ↔
      k.value e &&& ~~~c.once i r = 0#32 ∧
        (∀ j r', reads[j]? = some r' → j % limit = i → c.taken i r' &&& ~~~c.once i r = 0#32) ∧
        ((limit : ℕ) ≤ i → c.taken i r &&& ~~~k.value e = 0#32) := by
  have hholds := h.holds i e he
  rw [h.masks i]
  simp only [Mask.and_not_eq_zero_iff] at *
  have htaken : ∀ (r' : BitVec 32) (b : ℕ) (hb : b < 32), (c.taken i r')[b] = true ↔
      (adjustedMask i c.adjusted)[b] = false ∧ r'[b] = true ∧
        (c.rmwReadMasks.getD i 0)[b] = true := by
    intro r' b hb
    simp [taken]
  have honce : ∀ (b : ℕ) (hb : b < 32), (c.once i r)[b] = true ↔
      (adjustedValue i c.adjusted)[b] = true ∨ (c.taken i r)[b] = true := by
    intro b hb
    simp [once, onceValue, taken]
  have hleft : ∀ (b : ℕ) (hb : b < 32), (k.value e ||| (~~~adjustedMask i c.adjusted &&&
      (mixed limit reads i &&& c.rmwReadMasks.getD i 0)))[b] = true ↔
      (k.value e)[b] = true ∨
        ∃ j r', reads[j]? = some r' ∧ j % limit = i ∧ (c.taken i r')[b] = true := by
    intro b hb
    simp only [BitVec.getElem_or, BitVec.getElem_and, BitVec.getElem_not, Bool.or_eq_true,
      Bool.and_eq_true, Bool.not_eq_true', mixed_bit, htaken]
    refine or_congr_right ⟨?_, ?_⟩
    · rintro ⟨hmask, ⟨j, r', hj, hplace, hbit⟩, hread⟩
      exact ⟨j, r', hj, hplace, hmask, hbit, hread⟩
    · rintro ⟨j, r', hj, hplace, hmask, hbit, hread⟩
      exact ⟨hmask, ⟨j, r', hj, hplace, hbit⟩, hread⟩
  constructor
  · intro heq
    refine ⟨fun b hb hbit => ?_, fun j r' hj hplace b hb hbit => ?_, fun hlater b hb hbit => ?_⟩
    · rw [← heq]
      exact (hleft b hb).mpr (Or.inl hbit)
    · rw [← heq]
      exact (hleft b hb).mpr (Or.inr ⟨j, r', hj, hplace, hbit⟩)
    · have hsent := (honce b hb).mpr (Or.inr hbit)
      rw [← heq] at hsent
      obtain hstored | ⟨j, -, -, hplace, -⟩ := (hleft b hb).mp hsent
      · exact hstored
      · exact absurd (hplace ▸ Nat.mod_lt j limit.pos) hlater.not_gt
  · rintro ⟨hstored, hplace, hlater⟩
    refine BitVec.eq_of_getElem_eq fun b hb => Bool.eq_iff_iff.mpr ?_
    rw [hleft b hb]
    constructor
    · rintro (hbit | ⟨j, r', hj, hj', hbit⟩)
      · exact hstored b hb hbit
      · exact hplace j r' hj hj' b hb hbit
    · intro hsent
      obtain hbit | hbit := (honce b hb).mp hsent
      · exact Or.inl (hholds b hb hbit)
      · obtain hlt | hge := Nat.lt_or_ge i (limit : ℕ)
        · exact Or.inr ⟨i, r, hr, Nat.mod_eq_of_lt hlt, hbit⟩
        · exact Or.inl (hlater hge b hb hbit)

/-- The messages of single writes, with what the batch has read for the slots. -/
def onceMessages (k : MessageKind E) (c : Channel E) (reads : List (BitVec 32)) : List E :=
  c.writeInterfaces.mapIdx fun i e => k.setValue (c.once i (reads.getD i 0)) e

theorem Inv.sent_eq_iff (h : Inv k c) (hsent : Sent k limit c c') :
    c'.sent = onceMessages k c c'.read ↔ Matched k limit c c'.read := by
  have hvalue : ∀ i e r, c.writeInterfaces[i]? = some e → c'.read[i]? = some r →
      (c'.sent[i]? = (onceMessages k c c'.read)[i]? ↔
        k.value e ||| (~~~c.rmwWriteMasks.getD i 0 &&&
          (mixed limit c'.read i &&& c.rmwReadMasks.getD i 0)) = c.once i r) := by
    intro i e r he hr
    rw [hsent.sent, onceMessages, getElem?_mapIdx, getElem?_mapIdx, he, Option.map_some,
      Option.map_some, getD_eq_getElem?_getD (l := c'.read), hr, Option.getD_some,
      Option.some.injEq]
    refine ⟨fun heq => ?_, fun heq => by rw [heq]⟩
    have := congrArg k.value heq
    rwa [k.value_setValue, k.value_setValue] at this
  constructor
  · intro heq
    have hall := fun i e r he hr => (h.matched_iff he hr).mp ((hvalue i e r he hr).mp (by rw [heq]))
    exact ⟨fun i e r he hr => (hall i e r he hr).1,
      fun i e r j r' he hr hj hplace => (hall i e r he hr).2.1 j r' hj hplace,
      fun i e r he hr => (hall i e r he hr).2.2⟩
  · intro hmatched
    refine ext_getElem? fun i => ?_
    cases he : c.writeInterfaces[i]? with
    | none =>
      rw [hsent.sent, onceMessages, getElem?_mapIdx, getElem?_mapIdx, he]
      rfl
    | some e =>
      obtain ⟨hi, -⟩ := List.getElem?_eq_some_iff.mp he
      have hlt : i < c'.read.length := by rw [hsent.read, h.rmwInterfaces]; exact hi
      obtain ⟨r, hr⟩ : ∃ r, c'.read[i]? = some r := ⟨_, getElem?_eq_getElem hlt⟩
      refine (hvalue i e r he hr).mpr ((h.matched_iff he hr).mpr ?_)
      exact ⟨hmatched.stored i e r he hr, fun j r' => hmatched.place i e r j r' he hr,
        hmatched.later i e r he hr⟩

/-- All slots are in one group, and hold nothing but what has been adjusted. -/
theorem matched_of_oneGroup (hreads : reads.length ≤ limit)
    (hfresh : ∀ (i : ℕ) e, c.writeInterfaces[i]? = some e →
      k.value e = adjustedValue i c.adjusted) : Matched k limit c reads where
  stored i e r he hr := by
    rw [hfresh i e he, Mask.and_not_eq_zero_iff]
    intro b hb hbit
    rw [once, onceValue, BitVec.getElem_or, hbit, Bool.true_or]
  place i e r j r' he hr hj hplace := by
    obtain ⟨hlt, -⟩ := List.getElem?_eq_some_iff.mp hj
    rw [Nat.mod_eq_of_lt (hlt.trans_le hreads)] at hplace
    obtain rfl : r' = r := Option.some.inj (hj.symm.trans (hplace ▸ hr))
    rw [Mask.and_not_eq_zero_iff]
    intro b hb hbit
    have htaken : (~~~adjustedMask i c.adjusted &&& (r' &&& c.rmwReadMasks.getD i 0))[b] = true :=
      hbit
    rw [once, onceValue, BitVec.getElem_or, htaken, Bool.or_true]
  later i e r he hr hlater := by
    obtain ⟨hlt, -⟩ := List.getElem?_eq_some_iff.mp hr
    exact absurd (hlt.trans_le hreads) hlater.not_gt

end Sent

end Channel

/-! ### The object -/

/-- `message_type_e`. -/
inductive MessageType where
  | mbox
  | mmio
deriving DecidableEq

/-- The members of `SSTIOImp` that are used for writes, and the device. -/
structure SSTIOImp (D : Type) where
  batchCommandLimit : ℕ+
  device : D
  mbox : Channel MboxInterface := {}
  mmio : Channel MmioInterface := {}
  addedInterfaces : List (MessageType × ℕ) := []

namespace SSTIOImp

section Methods

variable {D : Type}

def addMboxWrite (cpuIndex : BitVec 32) (command subcommand : BitVec 16)
    (interfaceParameter : BitVec 32) (readSubcommand : BitVec 16)
    (readInterfaceParameter readMask : BitVec 32) : EStateM Exception (SSTIOImp D) ℕ := do
  let s ← get
  let mbox : MboxInterface := ⟨cpuIndex, interfaceParameter, 0, 0, command, subcommand⟩
  match s.mbox.writeInterfaces.findIdx? fun existing =>
      existing.cpuIndex = mbox.cpuIndex ∧ existing.mboxInterfaceParam = mbox.mboxInterfaceParam ∧
        existing.command = mbox.command ∧ existing.subcommand = mbox.subcommand with
  | none => do
    let readMessage :=
      { mbox with mboxInterfaceParam := readInterfaceParameter, subcommand := readSubcommand }
    set { s with
      mbox := s.mbox.add mbox readMessage readMask
      addedInterfaces := s.addedInterfaces ++ [(MessageType.mbox, s.mbox.writeInterfaces.length)] }
    pure s.addedInterfaces.length
  | some writeInterfaceIdx =>
    match s.addedInterfaces.findIdx? fun added => added = (.mbox, writeInterfaceIdx) with
    | none => throw ⟨"SSTIOImp::add_mbox_write(): Inserted an existing control, but cannot find " ++
        "its control index", [], .logic⟩
    | some idx => pure idx

def addMmioWrite (cpuIndex : BitVec 32) (registerOffset : BitVec 16)
    (registerValue readMask : BitVec 32) : EStateM Exception (SSTIOImp D) ℕ := do
  let s ← get
  let mmio : MmioInterface := ⟨1, cpuIndex, registerOffset.setWidth 32, registerValue⟩
  set { s with
    mmio := s.mmio.add mmio { mmio with isWrite := 0 } readMask
    addedInterfaces := s.addedInterfaces ++ [(MessageType.mmio, s.mmio.writeInterfaces.length)] }
  pure s.addedInterfaces.length

/-- `adjust`, with an index that has been returned; the source does not check it. -/
def adjust (batchIdx : ℕ) (writeValue writeMask : BitVec 64) (s : SSTIOImp D) : SSTIOImp D :=
  match s.addedInterfaces[batchIdx]? with
  | some (.mbox, slot) =>
    { s with mbox := s.mbox.adjust .mbox slot (writeValue.setWidth 32) (writeMask.setWidth 32) }
  | some (.mmio, slot) =>
    { s with mmio := s.mmio.adjust .mmio slot (writeValue.setWidth 32) (writeMask.setWidth 32) }
  | none => s

variable (mboxIoctl : Ioctl MboxInterface D) (mmioIoctl : Ioctl MmioInterface D)

def writeBatch : EStateM Exception (SSTIOImp D) Unit := do
  let s ← get
  zoom (fun s => (s.mbox, s.device)) (fun p s => { s with mbox := p.1, device := p.2 })
    (Channel.writeBatch .mbox mboxIoctl s.batchCommandLimit)
  zoom (fun s => (s.mmio, s.device)) (fun p s => { s with mmio := p.1, device := p.2 })
    (Channel.writeBatch .mmio mmioIoctl s.batchCommandLimit)

/-- What happens: the calls, and changes of the device. -/
inductive Call (D : Type) where
  | addMboxWrite (cpuIndex : BitVec 32) (command subcommand : BitVec 16)
      (interfaceParameter : BitVec 32) (readSubcommand : BitVec 16)
      (readInterfaceParameter readMask : BitVec 32)
  | addMmioWrite (cpuIndex : BitVec 32) (registerOffset : BitVec 16)
      (registerValue readMask : BitVec 32)
  | adjust (batchIdx : ℕ) (writeValue writeMask : BitVec 64)
  | writeBatch
  | others (device : D)

/-- The state after a call. -/
def next (s : SSTIOImp D) : Call D → SSTIOImp D
  | .addMboxWrite cpuIndex command subcommand interfaceParameter readSubcommand
      readInterfaceParameter readMask =>
    final (addMboxWrite cpuIndex command subcommand interfaceParameter readSubcommand
      readInterfaceParameter readMask) s
  | .addMmioWrite cpuIndex registerOffset registerValue readMask =>
    final (addMmioWrite cpuIndex registerOffset registerValue readMask) s
  | .adjust batchIdx writeValue writeMask => s.adjust batchIdx writeValue writeMask
  | .writeBatch => final (writeBatch mboxIoctl mmioIoctl) s
  | .others device => { s with device := device }

end Methods

/-! ### Every run -/

variable {D : Type} {mboxIoctl : Ioctl MboxInterface D} {mmioIoctl : Ioctl MmioInterface D}
  {s s' : SSTIOImp D}

/-- The slots of both kinds have their invariant, and the indices are those of slots. -/
structure Inv (s : SSTIOImp D) : Prop where
  mbox : Channel.Inv .mbox s.mbox
  mmio : Channel.Inv .mmio s.mmio
  mboxAdded : ∀ slot, (MessageType.mbox, slot) ∈ s.addedInterfaces →
    slot < s.mbox.writeInterfaces.length
  mmioAdded : ∀ slot, (MessageType.mmio, slot) ∈ s.addedInterfaces →
    slot < s.mmio.writeInterfaces.length

theorem inv_start (limit : ℕ+) (device : D) : Inv ⟨limit, device, {}, {}, []⟩ where
  mbox := Channel.inv_empty
  mmio := Channel.inv_empty
  mboxAdded _ h := absurd h not_mem_nil
  mmioAdded _ h := absurd h not_mem_nil

/-- A batch keeps the slots of both kinds. -/
structure BatchKept (s s' : SSTIOImp D) : Prop where
  mbox : Channel.Kept .mbox s.mbox s'.mbox
  mmio : Channel.Kept .mmio s.mmio s'.mmio
  added : s'.addedInterfaces = s.addedInterfaces

theorem Inv.of_batchKept (h : s.Inv) (hkept : s.BatchKept s') : s'.Inv where
  mbox := h.mbox.of_kept hkept.mbox
  mmio := h.mmio.of_kept hkept.mmio
  mboxAdded slot hslot := hkept.mbox.length ▸ h.mboxAdded slot (hkept.added ▸ hslot)
  mmioAdded slot hslot := hkept.mmio.length ▸ h.mmioAdded slot (hkept.added ▸ hslot)

/-- What a batch does. -/
theorem wp_writeBatch (h : s.Inv) :
    wp (writeBatch mboxIoctl mmioIoctl)
      (fun _ s' => s.BatchKept s' ∧ Channel.Sent .mbox s.batchCommandLimit s.mbox s'.mbox ∧
        Channel.Sent .mmio s.batchCommandLimit s.mmio s'.mmio)
      (fun _ s' => s.BatchKept s') s := by
  unfold writeBatch
  rw [wp_bind, wp_get, wp_bind, wp_zoom]
  refine wp_mono (Channel.wp_writeBatch h.mbox.rmwInterfaces) ?_ ?_
  · rintro - ⟨mbox, device⟩ ⟨hmbox, hsent⟩
    rw [wp_zoom]
    refine wp_mono (Channel.wp_writeBatch h.mmio.rmwInterfaces) ?_ ?_
    · rintro - ⟨mmio, device⟩ ⟨hmmio, hsent'⟩
      exact ⟨⟨hmbox, hmmio, rfl⟩, hsent, hsent'⟩
    · rintro - ⟨mmio, device⟩ hmmio
      exact ⟨hmbox, hmmio, rfl⟩
  · rintro - ⟨mbox, device⟩ hmbox
    exact ⟨hmbox, .refl, rfl⟩

theorem Inv.addMboxWrite (h : s.Inv) (cpuIndex : BitVec 32) (command subcommand : BitVec 16)
    (interfaceParameter : BitVec 32) (readSubcommand : BitVec 16)
    (readInterfaceParameter readMask : BitVec 32) :
    Inv (final (SSTIOImp.addMboxWrite cpuIndex command subcommand interfaceParameter
      readSubcommand readInterfaceParameter readMask) s) := by
  refine (wp_final (P := SSTIOImp.Inv)).mp ?_
  unfold SSTIOImp.addMboxWrite
  rw [wp_bind, wp_get]
  dsimp only
  split
  · rw [wp_bind, wp_set, wp_pure]
    refine ⟨h.mbox.add _ _ _, h.mmio, fun slot hslot => ?_, fun slot hslot => ?_⟩
    · obtain hslot | hslot := mem_append.mp hslot
      · exact (h.mboxAdded slot hslot).trans (by simp [Channel.add])
      · obtain ⟨-, rfl⟩ := Prod.mk.inj (mem_singleton.mp hslot)
        simp [Channel.add]
    · obtain hslot | hslot := mem_append.mp hslot
      · exact h.mmioAdded slot hslot
      · cases mem_singleton.mp hslot
  · split
    · exact h
    · exact h

theorem Inv.addMmioWrite (h : s.Inv) (cpuIndex : BitVec 32) (registerOffset : BitVec 16)
    (registerValue readMask : BitVec 32) :
    Inv (final (SSTIOImp.addMmioWrite cpuIndex registerOffset registerValue readMask) s) := by
  refine (wp_final (P := SSTIOImp.Inv)).mp ?_
  unfold SSTIOImp.addMmioWrite
  rw [wp_bind, wp_get, wp_bind, wp_set, wp_pure]
  refine ⟨h.mbox, h.mmio.add _ _ _, fun slot hslot => ?_, fun slot hslot => ?_⟩
  · obtain hslot | hslot := mem_append.mp hslot
    · exact h.mboxAdded slot hslot
    · cases mem_singleton.mp hslot
  · obtain hslot | hslot := mem_append.mp hslot
    · exact (h.mmioAdded slot hslot).trans (by simp [Channel.add])
    · obtain ⟨-, rfl⟩ := Prod.mk.inj (mem_singleton.mp hslot)
      simp [Channel.add]

theorem Inv.adjust (h : s.Inv) (batchIdx : ℕ) (writeValue writeMask : BitVec 64) :
    (s.adjust batchIdx writeValue writeMask).Inv := by
  unfold SSTIOImp.adjust
  split
  · rename_i slot hslot
    have hlt := h.mboxAdded slot (mem_of_getElem? hslot)
    refine ⟨h.mbox.adjust hlt _ _, h.mmio, fun slot hslot => ?_, h.mmioAdded⟩
    exact (h.mboxAdded slot hslot).trans_eq (by simp [Channel.adjust])
  · rename_i slot hslot
    have hlt := h.mmioAdded slot (mem_of_getElem? hslot)
    refine ⟨h.mbox, h.mmio.adjust hlt _ _, h.mboxAdded, fun slot hslot => ?_⟩
    exact (h.mmioAdded slot hslot).trans_eq (by simp [Channel.adjust])
  · exact h

theorem Inv.next (h : s.Inv) (c : Call D) : (s.next mboxIoctl mmioIoctl c).Inv := by
  cases c with
  | addMboxWrite => exact h.addMboxWrite _ _ _ _ _ _ _
  | addMmioWrite => exact h.addMmioWrite _ _ _ _
  | adjust => exact h.adjust _ _ _
  | writeBatch =>
    refine (wp_final (P := SSTIOImp.Inv)).mp (wp_mono (wp_writeBatch h) ?_ ?_)
    · exact fun _ s' hs' => h.of_batchKept hs'.1
    · exact fun _ s' hs' => h.of_batchKept hs'
  | others => exact ⟨h.mbox, h.mmio, h.mboxAdded, h.mmioAdded⟩

theorem inv_of_reachable {limit : ℕ+} {device : D}
    (hs : (Lts.ofFun (next mboxIoctl mmioIoctl)).Reachable ⟨limit, device, {}, {}, []⟩ s) :
    s.Inv := by
  refine Lts.ReachableIf.invariant hs (inv_start limit device) ?_
  rintro s c _ hinv - rfl
  exact hinv.next c

/-- In every run, a batch that succeeds sends for each slot what a single write would send with the
bits that have been adjusted so far and with what the batch has read for the slot, just when the slots
are matched. -/
theorem writeBatch_eq_writeOnce {limit : ℕ+} {device : D}
    (hs : (Lts.ofFun (next mboxIoctl mmioIoctl)).Reachable ⟨limit, device, {}, {}, []⟩ s)
    (hok : writeBatch mboxIoctl mmioIoctl s = .ok () s') :
    (s'.mbox.sent = Channel.onceMessages .mbox s.mbox s'.mbox.read ↔
      Channel.Matched .mbox s.batchCommandLimit s.mbox s'.mbox.read) ∧
    (s'.mmio.sent = Channel.onceMessages .mmio s.mmio s'.mmio.read ↔
      Channel.Matched .mmio s.batchCommandLimit s.mmio s'.mmio.read) := by
  have h := inv_of_reachable hs
  have hwp : wp (writeBatch mboxIoctl mmioIoctl) _ _ s := wp_writeBatch h
  unfold wp at hwp
  rw [hok] at hwp
  obtain ⟨-, hmbox, hmmio⟩ := hwp
  exact ⟨h.mbox.sent_eq_iff hmbox, h.mmio.sent_eq_iff hmmio⟩

/-- Mailboxes of two cpus, which hold their numbers plus one. -/
def byCpu : Ioctl MboxInterface Unit := fun batch d =>
  (.ok fun i => (batch[i]?.map fun e => e.cpuIndex + 1).getD 0, d)

/-- No registers. -/
def noRegisters : Ioctl MmioInterface Unit := fun _ d => (.ok fun _ => 0, d)

/-- A slot for each of the mailboxes. -/
def twoSlots : List (Call Unit) :=
  [.addMboxWrite 0 0 0 0 0 0 0xff, .addMboxWrite 1 0 0 0 0 0 0xff]

theorem writeBatch_eq_writeOnce_twoSlots :
    let s := twoSlots.foldl (next byCpu noRegisters) ⟨2, (), {}, {}, []⟩
    let s' := final (writeBatch byCpu noRegisters) s
    s'.mbox.sent = Channel.onceMessages .mbox s.mbox s'.mbox.read := by
  intro s s'
  have hok := Prog.eq_ok_of_returns (m := writeBatch byCpu noRegisters) (s := s) (by decide +kernel)
  have hadjusted : s.mbox.adjusted = [] := by rfl
  have hzero : ∀ e ∈ s.mbox.writeInterfaces, e.writeValue = 0 := by decide +kernel
  refine (writeBatch_eq_writeOnce (Lts.reachable_foldl _ twoSlots) hok).1.mpr
    (Channel.matched_of_oneGroup (by decide +kernel) fun i e he => ?_)
  rw [hadjusted]
  exact hzero e (mem_of_getElem? he)

/-- With one slot in a group the first slot gets what is read for the second one, too, and the second
one gets nothing. -/
theorem mixed_groups :
    let s := twoSlots.foldl (next byCpu noRegisters) ⟨1, (), {}, {}, []⟩
    let s' := final (writeBatch byCpu noRegisters) s
    Prog.returns (writeBatch byCpu noRegisters) s = true ∧
      s'.mbox.sent ≠ Channel.onceMessages .mbox s.mbox s'.mbox.read := by
  decide +kernel

-- a bit that one batch has read is sent by the next one, although the mailbox no longer has it
example :
    let slots : SSTIOImp (BitVec 32) :=
      [Call.addMboxWrite 0 0 0 0 0 0 0xff, .writeBatch, .others 0].foldl
        (next (fun _ d => (.ok fun _ => d, d)) fun _ d => (.ok fun _ => 0, d)) ⟨8, 1, {}, {}, []⟩
    (final (writeBatch (fun _ d => (.ok fun _ => d, d)) fun _ d => (.ok fun _ => 0, d))
      slots).mbox.sent.map (·.writeValue) = [1] := by
  decide +kernel

end SSTIOImp

end Geopm.Pio
