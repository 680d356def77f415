import Geopm.Pio.SSTIO

/-!
# Samples of `SSTIO`

Reads and writes of mailboxes and of registers are all listed in one table, and an index that is
returned is a place in this table.  `SSTIOImp::sample` looks up what a batch has read by the kind
and the position that are listed there.

* `ReadChannel` : the commands of one kind that are read, and the batch that holds the answers;
* `SSTIOReads` : the object with what it reads;
* `getElem?_chunks` : division and modulo find a command in its group;
* `wp_readBatch` : a batch that succeeds holds what the driver has returned for each command;
* `Registered` : the index of a command, which later calls leave as it is;
* `sample_eq_answer` : the samples come from the right slots.
-/

namespace Geopm.Pio.SSTSample

open Prog (zoom final wp wp_bind wp_zoom wp_mono wp_get wp_final)
open SSTIOImp (addMboxWrite addMmioWrite byCpu)
open List hiding get modify set

/-- The commands of one kind that are read, and the groups that have been sent.  The messages that
the driver has been given in the last batch, with what it has returned, are history. -/
structure ReadChannel (E : Type) where
  readInterfaces : List E := []
  readBatch : List (List E) := []
  answers : List (List (E × BitVec 32)) := []

/-- The members of `SSTIOImp`. -/
structure SSTIOReads (D : Type) where
  writes : SSTIOImp D
  mboxReads : ReadChannel MboxInterface := {}
  mmioReads : ReadChannel MmioInterface := {}

namespace ReadChannel

section Batches

-- the kind of the messages, the driver, and how it puts a result into a message
variable {E D : Type} (k : MessageKind E) (ioctl : Ioctl E D) (setResult : BitVec 32 → E → E)

/-- The driver fills a group in. -/
def answer (groupIdx : ℕ) (batch : List E) (values : ℕ → BitVec 32) (c : ReadChannel E) :
    ReadChannel E :=
  { c with
    readBatch := c.readBatch.set groupIdx (batch.mapIdx fun i e => setResult (values i) e)
    answers := c.answers ++ [batch.mapIdx fun i e => (e, values i)] }

/-- The groups are sent. -/
def readGroups (groupIdx : ℕ) : List (List E) → EStateM Exception (ReadChannel E × D) Unit
  | [] => pure ()
  | batch :: batches => do
    let values ← zoom Prod.snd (fun d s => (s.1, d))
      (send k ioctl ("SSTIOImp::read_batch() " ++ k.name ++ " read failed") batch)
    modify fun s => (s.1.answer setResult groupIdx batch values, s.2)
    readGroups (groupIdx + 1) batches

/-- `read_batch`, for one kind of messages. -/
def readAll (limit : ℕ+) : EStateM Exception (ReadChannel E × D) Unit := do
  let s ← get
  if s.1.readInterfaces = [] then pure ()
  else do
    modify fun s => ({ s.1 with
      readBatch := ioctlStructsFromVector limit s.1.readInterfaces
      answers := [] }, s.2)
    readGroups k ioctl setResult 0 (ioctlStructsFromVector limit s.1.readInterfaces)

/-- The message at a position: division finds its group, and modulo finds it there. -/
def message (limit : ℕ+) (position : ℕ) (c : ReadChannel E) : Option E :=
  c.readBatch[position / limit]?.bind fun batch => batch[position % limit]?

end Batches

end ReadChannel

section Methods

variable {D : Type}

/-- The command of `add_mbox_read`. -/
def mboxCommand (cpuIndex : BitVec 32) (command subcommand : BitVec 16)
    (subcommandArg : BitVec 32) : MboxInterface :=
  ⟨cpuIndex, 0, subcommandArg, 0, command, subcommand⟩

/-- The command of `add_mmio_read`. -/
def mmioCommand (cpuIndex : BitVec 32) (registerOffset : BitVec 16) : MmioInterface :=
  ⟨0, cpuIndex, registerOffset.setWidth 32, 0⟩

/-- A command is listed with the indices. -/
def SSTIOReads.list (s : SSTIOReads D) (type : MessageType) (position : ℕ) : SSTIOReads D :=
  { s with
    writes := { s.writes with
      addedInterfaces := s.writes.addedInterfaces ++ [(type, position)] } }

def addMboxRead (cpuIndex : BitVec 32) (command subcommand : BitVec 16)
    (subcommandArg : BitVec 32) : EStateM Exception (SSTIOReads D) ℕ := do
  let s ← get
  let mbox := mboxCommand cpuIndex command subcommand subcommandArg
  match s.mboxReads.readInterfaces.findIdx? fun existing =>
      existing.cpuIndex = mbox.cpuIndex ∧ existing.mboxInterfaceParam = mbox.mboxInterfaceParam ∧
        existing.command = mbox.command ∧ existing.subcommand = mbox.subcommand ∧
          existing.writeValue = mbox.writeValue with
  | none => do
    let listed := s.list .mbox s.mboxReads.readInterfaces.length
    set { listed with
      mboxReads := { s.mboxReads with
        readInterfaces := s.mboxReads.readInterfaces ++ [mbox] } }
    pure s.writes.addedInterfaces.length
  | some readInterfaceIdx =>
    match s.writes.addedInterfaces.findIdx? fun added => added = (.mbox, readInterfaceIdx) with
    | none => throw ⟨"SSTIOImp::add_mbox_read(): Inserted an existing signal, but cannot find " ++
        "its signal index", [], .logic⟩
    | some idx => pure idx

def addMmioRead (cpuIndex : BitVec 32) (registerOffset : BitVec 16) :
    EStateM Exception (SSTIOReads D) ℕ := do
  let s ← get
  let listed := s.list .mmio s.mmioReads.readInterfaces.length
  set { listed with
    mmioReads := { s.mmioReads with
      readInterfaces := s.mmioReads.readInterfaces ++ [mmioCommand cpuIndex registerOffset] } }
  pure s.writes.addedInterfaces.length

/-- A method that writes, on the members that it uses. -/
def onWrites {α : Type} (method : EStateM Exception (SSTIOImp D) α) :
    EStateM Exception (SSTIOReads D) α :=
  zoom SSTIOReads.writes (fun writes s => { s with writes := writes }) method

/-- `sample`; the index is not checked. -/
def sample (s : SSTIOReads D) (batchIdx : ℕ) : Option (BitVec 64) :=
  match s.writes.addedInterfaces[batchIdx]? with
  | some (.mmio, position) =>
    (s.mmioReads.message s.writes.batchCommandLimit position).map fun e => e.value.setWidth 64
  | some (.mbox, position) =>
    (s.mboxReads.message s.writes.batchCommandLimit position).map fun e => e.readValue.setWidth 64
  | none => none

/-- Where the driver puts what it has read from a mailbox. -/
def setMbox (v : BitVec 32) (e : MboxInterface) : MboxInterface := { e with readValue := v }

/-- Where the driver puts what it has read from a register. -/
def setMmio (v : BitVec 32) (e : MmioInterface) : MmioInterface := { e with value := v }

variable (mboxIoctl : Ioctl MboxInterface D) (mmioIoctl : Ioctl MmioInterface D)

def readBatch : EStateM Exception (SSTIOReads D) Unit := do
  let s ← get
  zoom (fun s => (s.mboxReads, s.writes.device))
    (fun p s => { s with mboxReads := p.1, writes := { s.writes with device := p.2 } })
    (ReadChannel.readAll .mbox mboxIoctl setMbox s.writes.batchCommandLimit)
  zoom (fun s => (s.mmioReads, s.writes.device))
    (fun p s => { s with mmioReads := p.1, writes := { s.writes with device := p.2 } })
    (ReadChannel.readAll .mmio mmioIoctl setMmio s.writes.batchCommandLimit)

/-- What happens: the calls, and changes of the device. -/
inductive Call (D : Type) where
  | addMboxRead (cpuIndex : BitVec 32) (command subcommand : BitVec 16)
      (subcommandArg : BitVec 32)
  | addMboxWrite (cpuIndex : BitVec 32) (command subcommand : BitVec 16)
      (interfaceParameter : BitVec 32) (readSubcommand : BitVec 16)
      (readInterfaceParameter readMask : BitVec 32)
  | addMmioRead (cpuIndex : BitVec 32) (registerOffset : BitVec 16)
  | addMmioWrite (cpuIndex : BitVec 32) (registerOffset : BitVec 16)
      (registerValue readMask : BitVec 32)
  | readBatch
  | others (device : D)

/-- The state after a call. -/
def next (s : SSTIOReads D) : Call D → SSTIOReads D
  | .addMboxRead cpuIndex command subcommand subcommandArg =>
    final (addMboxRead cpuIndex command subcommand subcommandArg) s
  | .addMboxWrite cpuIndex command subcommand interfaceParameter readSubcommand
      readInterfaceParameter readMask =>
    final (onWrites (addMboxWrite cpuIndex command subcommand interfaceParameter
      readSubcommand readInterfaceParameter readMask)) s
  | .addMmioRead cpuIndex registerOffset => final (addMmioRead cpuIndex registerOffset) s
  | .addMmioWrite cpuIndex registerOffset registerValue readMask =>
    final (onWrites (addMmioWrite cpuIndex registerOffset registerValue readMask)) s
  | .readBatch => final (readBatch mboxIoctl mmioIoctl) s
  | .others device => { s with writes := { s.writes with device := device } }

/-- The state after calls on a new object. -/
def after (limit : ℕ+) (device : D) (calls : List (Call D)) : SSTIOReads D :=
  calls.foldl (next mboxIoctl mmioIoctl) ⟨⟨limit, device, {}, {}, []⟩, {}, {}⟩

end Methods

/-! ### Groups -/

section Groups

variable {E : Type} {limit : ℕ+}

/-- The groups are not empty, and not larger than the limit. -/
theorem length_of_mem_chunks {commands chunk : List E}
    (h : chunk ∈ ioctlStructsFromVector limit commands) :
    0 < chunk.length ∧ chunk.length ≤ limit := by
  induction commands using ioctlStructsFromVector.induct limit with
  | case1 =>
    rw [ioctlStructsFromVector] at h
    exact absurd h not_mem_nil
  | case2 command commands ih =>
    rw [ioctlStructsFromVector] at h
    obtain rfl | h := mem_cons.mp h
    · rw [length_take, length_cons]
      have := limit.pos
      omega
    · exact ih h

/-- **Division and modulo find a command in its group**, for groups of the sizes that commands are
split into. -/
theorem getElem?_chunks {α : Type} {groups : List (List α)} {commands : List E}
    (h : groups.map List.length = (ioctlStructsFromVector limit commands).map List.length)
    (position : ℕ) :
    (groups[position / limit]?.bind fun batch => batch[position % limit]?) =
      groups.flatten[position]? := by
  have hpos := limit.pos
  induction commands using ioctlStructsFromVector.induct limit generalizing groups position with
  | case1 =>
    rw [ioctlStructsFromVector, map_nil, map_eq_nil_iff] at h
    subst h
    rfl
  | case2 command commands ih =>
    rw [ioctlStructsFromVector] at h
    cases groups with
    | nil => cases h
    | cons group groups =>
      obtain ⟨hgroup, hgroups⟩ := List.cons.inj h
      have hlength : group.length = min (limit : ℕ) (commands.length + 1) := by
        rw [hgroup, length_take, length_cons]
      -- a group that is not full is the last one
      have hlast : group.length < limit → groups = [] := by
        intro hlt
        rw [drop_eq_nil_of_le (by rw [length_cons]; omega), ioctlStructsFromVector,
          map_nil, map_eq_nil_iff] at hgroups
        exact hgroups
      rw [flatten_cons]
      obtain hfirst | hlater := Nat.lt_or_ge position limit
      · rw [Nat.div_eq_of_lt hfirst, Nat.mod_eq_of_lt hfirst, getElem?_cons_zero,
          Option.bind_some]
        obtain hlt | hge := Nat.lt_or_ge position group.length
        · exact (getElem?_append_left hlt).symm
        · rw [hlast (hge.trans_lt hfirst), flatten_nil, append_nil]
      · have hdiv : position / limit = (position - limit) / limit + 1 := by
          rw [Nat.div_eq_sub_div hpos hlater]
        rw [hdiv, getElem?_cons_succ, Nat.mod_eq_sub_mod hlater, ih hgroups]
        obtain hlt | hge := Nat.lt_or_ge group.length limit
        · rw [hlast hlt, flatten_nil, append_nil, getElem?_nil,
            getElem?_eq_none (by omega)]
        · have hfull : group.length = limit := by omega
          rw [getElem?_append_right (by omega), hfull]

end Groups

/-! ### Batches -/

namespace ReadChannel

section Batches

variable {E D : Type} {k : MessageKind E} {ioctl : Ioctl E D} {setResult : BitVec 32 → E → E}
  {c : ReadChannel E} {d : D} {limit : ℕ+}

/-- A group, as the driver has filled it in. -/
def filled (setResult : BitVec 32 → E → E) (group : List (E × BitVec 32)) : List E :=
  group.map fun (e, v) => setResult v e

/-- The groups from here on are filled in, and the driver has been given their messages. -/
theorem wp_readGroups (done batches : List (List E)) (hbatch : c.readBatch = done ++ batches) :
    wp (readGroups k ioctl setResult done.length batches)
      (fun _ s => ∃ answers : List (List (E × BitVec 32)),
        answers.map (fun group => group.map Prod.fst) = batches ∧
          s.1 = { c with
            readBatch := done ++ answers.map (filled setResult)
            answers := c.answers ++ answers })
      (fun _ s => s.1.readInterfaces = c.readInterfaces) (c, d) := by
  induction batches generalizing done c d with
  | nil =>
    refine ⟨[], rfl, ?_⟩
    rw [append_nil] at hbatch
    simp [← hbatch]
  | cons batch batches ih =>
    unfold readGroups
    rw [wp_bind, wp_zoom]
    refine Channel.wp_send (fun values d => ?_) fun _ _ => rfl
    rw [wp_bind, Prog.wp_modify]
    set group : List (E × BitVec 32) := batch.mapIdx fun i e => (e, values i) with hgroup
    have hfilled : batch.mapIdx (fun i e => setResult (values i) e) = filled setResult group := by
      refine ext_getElem? fun i => ?_
      simp [filled, hgroup, Function.comp_def]
    have hbatch' : (c.answer setResult done.length batch values).readBatch =
        done ++ [filled setResult group] ++ batches := by
      show c.readBatch.set _ _ = _
      rw [hfilled, hbatch, set_append_right _ _ le_rfl, Nat.sub_self, set_cons_zero,
        append_assoc]
      rfl
    have hnext := ih (c := c.answer setResult done.length batch values) (d := d)
      (done ++ [filled setResult group]) hbatch'
    rw [length_append, length_singleton] at hnext
    refine wp_mono hnext ?_ fun _ _ h => h
    rintro - s ⟨answers, hanswers, hs⟩
    refine ⟨group :: answers, ?_, ?_⟩
    · have hfst : group.map Prod.fst = batch := by
        refine ext_getElem? fun i => ?_
        simp [hgroup, Function.comp_def]
      rw [map_cons, hanswers, hfst]
    · rw [hs]
      simp [answer, hgroup]

/-- The driver has been given the commands, and the batch holds what it has returned. -/
structure Answered (setResult : BitVec 32 → E → E) (limit : ℕ+) (commands : List E)
    (c : ReadChannel E) : Prop where
  commands : c.answers.flatten.map Prod.fst = commands
  message : ∀ position, c.message limit position =
    c.answers.flatten[position]?.map fun (e, v) => setResult v e

/-- **A batch that succeeds holds what the driver has returned for each command.** -/
theorem wp_readAll :
    wp (readAll k ioctl setResult limit)
      (fun _ s => s.1.readInterfaces = c.readInterfaces ∧
        (c.readInterfaces ≠ [] → Answered setResult limit c.readInterfaces s.1))
      (fun _ s => s.1.readInterfaces = c.readInterfaces) (c, d) := by
  unfold readAll
  rw [wp_bind, wp_get, Prog.wp_ite]
  refine ⟨fun hempty => ⟨rfl, fun hne => absurd hempty hne⟩, fun _ => ?_⟩
  rw [wp_bind, Prog.wp_modify]
  refine wp_mono (wp_readGroups [] _ rfl) ?_ fun _ _ h => h
  rintro - s ⟨answers, hanswers, hs⟩
  have hcommands : s.1.answers = answers := by rw [hs]; rfl
  have hbatch : s.1.readBatch = answers.map (filled setResult) := by rw [hs]; rfl
  refine ⟨by rw [hs], fun _ => ⟨?_, fun position => ?_⟩⟩
  · rw [hcommands, map_flatten, hanswers, Channel.flatten_ioctlStructsFromVector]
  · have hsizes : (answers.map (filled setResult)).map List.length =
        (ioctlStructsFromVector limit c.readInterfaces).map List.length := by
      rw [← hanswers]
      simp [filled]
    unfold message
    rw [hbatch, getElem?_chunks hsizes, hcommands, ← getElem?_map, map_flatten]
    rfl

end Batches

end ReadChannel

section Runs

variable {D : Type} {mboxIoctl : Ioctl MboxInterface D} {mmioIoctl : Ioctl MmioInterface D}
  {s s' : SSTIOReads D}

/-- A batch leaves the commands and the table as they are. -/
structure SameTable (s s' : SSTIOReads D) : Prop where
  mbox : s'.mboxReads.readInterfaces = s.mboxReads.readInterfaces
  mmio : s'.mmioReads.readInterfaces = s.mmioReads.readInterfaces
  added : s'.writes.addedInterfaces = s.writes.addedInterfaces
  limit : s'.writes.batchCommandLimit = s.writes.batchCommandLimit

theorem wp_readBatch :
    wp (readBatch mboxIoctl mmioIoctl)
      (fun _ s' => SameTable s s' ∧
        (s.mboxReads.readInterfaces ≠ [] → ReadChannel.Answered setMbox s.writes.batchCommandLimit
          s.mboxReads.readInterfaces s'.mboxReads) ∧
        (s.mmioReads.readInterfaces ≠ [] → ReadChannel.Answered setMmio s.writes.batchCommandLimit
          s.mmioReads.readInterfaces s'.mmioReads))
      (fun _ => SameTable s) s := by
  unfold readBatch
  rw [wp_bind, wp_get, wp_bind, wp_zoom]
  refine wp_mono ReadChannel.wp_readAll ?_ fun _ t ht => ⟨ht, rfl, rfl, rfl⟩
  rintro - t ⟨hmbox, hmboxAnswered⟩
  rw [wp_zoom]
  refine wp_mono ReadChannel.wp_readAll ?_ fun _ t' ht' => ⟨hmbox, ht', rfl, rfl⟩
  rintro - t' ⟨hmmio, hmmioAnswered⟩
  exact ⟨⟨hmbox, hmmio, rfl, rfl⟩, hmboxAnswered, hmmioAnswered⟩

/-! ### The table -/

/-- The commands and the table get longer. -/
structure Grows (s s' : SSTIOReads D) : Prop where
  mbox : s.mboxReads.readInterfaces <+: s'.mboxReads.readInterfaces
  mmio : s.mmioReads.readInterfaces <+: s'.mmioReads.readInterfaces
  added : s.writes.addedInterfaces <+: s'.writes.addedInterfaces

theorem Grows.refl (s : SSTIOReads D) : Grows s s :=
  ⟨prefix_rfl, prefix_rfl, prefix_rfl⟩

theorem Grows.trans {s'' : SSTIOReads D} (h : Grows s s') (h' : Grows s' s'') : Grows s s'' :=
  ⟨h.mbox.trans h'.mbox, h.mmio.trans h'.mmio, h.added.trans h'.added⟩

theorem SameTable.grows (h : SameTable s s') : Grows s s' :=
  ⟨h.mbox ▸ prefix_rfl, h.mmio ▸ prefix_rfl, h.added ▸ prefix_rfl⟩

/-- The mailbox commands are different, and each of them is listed. -/
structure Inv (s : SSTIOReads D) : Prop where
  nodup : s.mboxReads.readInterfaces.Nodup
  unread : ∀ e ∈ s.mboxReads.readInterfaces, e.readValue = 0
  listed : ∀ position < s.mboxReads.readInterfaces.length,
    (MessageType.mbox, position) ∈ s.writes.addedInterfaces

/-- An index that is listed for a mailbox command. -/
def Registered (s : SSTIOReads D) (mbox : MboxInterface) (idx : ℕ) : Prop :=
  ∃ position, s.mboxReads.readInterfaces[position]? = some mbox ∧
    s.writes.addedInterfaces[idx]? = some (.mbox, position)

theorem getElem?_of_grown {α : Type} {xs ys : List α} (h : xs <+: ys) {i : ℕ} {x : α}
    (hi : xs[i]? = some x) : ys[i]? = some x := by
  obtain ⟨zs, rfl⟩ := h
  rw [getElem?_append_left (List.getElem?_eq_some_iff.mp hi).1, hi]

/-- Later calls leave the index of a command as it is. -/
theorem Registered.grows {mbox : MboxInterface} {idx : ℕ} (h : Registered s mbox idx)
    (hgrows : Grows s s') : Registered s' mbox idx := by
  obtain ⟨position, hmbox, hadded⟩ := h
  exact ⟨position, getElem?_of_grown hgrows.mbox hmbox, getElem?_of_grown hgrows.added hadded⟩

theorem mbox_ext {e e' : MboxInterface} (hread : e.readValue = e'.readValue)
    (h : e.cpuIndex = e'.cpuIndex ∧ e.mboxInterfaceParam = e'.mboxInterfaceParam ∧
      e.command = e'.command ∧ e.subcommand = e'.subcommand ∧ e.writeValue = e'.writeValue) :
    e = e' := by
  cases e
  cases e'
  simp_all

/-- **A read of a mailbox is registered**, again or for the first time; the place in the table may
have been made for a write of the same position. -/
theorem wp_addMboxRead (h : Inv s) (cpuIndex : BitVec 32) (command subcommand : BitVec 16)
    (subcommandArg : BitVec 32) :
    wp (addMboxRead cpuIndex command subcommand subcommandArg)
      (fun idx s' => Inv s' ∧ Grows s s' ∧
        Registered s' (mboxCommand cpuIndex command subcommand subcommandArg) idx)
      (fun _ _ => False) s := by
  set mbox := mboxCommand cpuIndex command subcommand subcommandArg with hmbox
  unfold addMboxRead
  rw [wp_bind, wp_get]
  dsimp only
  rw [← hmbox]
  split
  · next hfind =>
    rw [wp_bind, Prog.wp_set, Prog.wp_pure]
    have hnew : mbox ∉ s.mboxReads.readInterfaces := by
      intro hmem
      have := findIdx?_eq_none_iff.mp hfind mbox hmem
      simp at this
    refine ⟨⟨?_, ?_, ?_⟩, ⟨prefix_append _ _, prefix_rfl, prefix_append _ _⟩, ?_⟩
    · exact nodup_append.mpr ⟨h.nodup, nodup_singleton _, fun a ha b hb hab =>
        hnew (mem_singleton.mp hb ▸ hab ▸ ha)⟩
    · intro e he
      obtain he | he := mem_append.mp he
      · exact h.unread e he
      · rw [mem_singleton.mp he]
        rfl
    · intro position hposition
      rw [length_append, length_singleton] at hposition
      obtain hlt | rfl := Nat.lt_succ_iff_lt_or_eq.mp hposition
      · exact mem_append_left _ (h.listed position hlt)
      · exact mem_append_right _ mem_cons_self
    · exact ⟨_, getElem?_concat_length, getElem?_concat_length⟩
  · next position hfind =>
    obtain ⟨hlt, hfields, -⟩ := findIdx?_eq_some_iff_getElem.mp hfind
    have heq : s.mboxReads.readInterfaces[position] = mbox :=
      mbox_ext (h.unread _ (getElem_mem hlt)) (of_decide_eq_true hfields)
    split
    · next hnone =>
      have := findIdx?_eq_none_iff.mp hnone _ (h.listed position hlt)
      simp at this
    · next idx hadded =>
      obtain ⟨hidx, hfound, -⟩ := findIdx?_eq_some_iff_getElem.mp hadded
      refine ⟨h, Grows.refl s, position, ?_, ?_⟩
      · rw [getElem?_eq_getElem hlt, heq]
      · rw [getElem?_eq_getElem hidx, of_decide_eq_true hfound]

theorem addMmioRead_eq_ok (s : SSTIOReads D) (cpuIndex : BitVec 32) (registerOffset : BitVec 16) :
    ∃ s', addMmioRead cpuIndex registerOffset s = .ok s.writes.addedInterfaces.length s' ∧
      (Inv s → Inv s') ∧ Grows s s' ∧
      s'.mmioReads.readInterfaces =
        s.mmioReads.readInterfaces ++ [mmioCommand cpuIndex registerOffset] ∧
      s'.writes.addedInterfaces[s.writes.addedInterfaces.length]? =
        some (.mmio, s.mmioReads.readInterfaces.length) := by
  refine ⟨_, rfl, fun h => ⟨h.nodup, h.unread, fun position hposition => ?_⟩,
    ⟨prefix_rfl, prefix_append _ _, prefix_append _ _⟩, rfl,
    getElem?_concat_length⟩
  exact mem_append_left _ (h.listed position hposition)

theorem prefix_addMboxWrite (writes : SSTIOImp D) (cpuIndex : BitVec 32)
    (command subcommand : BitVec 16) (interfaceParameter : BitVec 32) (readSubcommand : BitVec 16)
    (readInterfaceParameter readMask : BitVec 32) :
    writes.addedInterfaces <+:
      (final (addMboxWrite cpuIndex command subcommand interfaceParameter
        readSubcommand readInterfaceParameter readMask) writes).addedInterfaces := by
  refine (wp_final
    (P := fun writes' : SSTIOImp D => writes.addedInterfaces <+: writes'.addedInterfaces)).mp ?_
  unfold addMboxWrite
  rw [wp_bind, wp_get]
  dsimp only
  split
  · exact prefix_append _ _
  · split
    · exact prefix_rfl
    · exact prefix_rfl

/-- A method that adds a write keeps the invariant. -/
theorem inv_onWrites {α : Type} {method : EStateM Exception (SSTIOImp D) α}
    (hadded : s.writes.addedInterfaces <+: (final method s.writes).addedInterfaces)
    (h : Inv s) :
    Inv (final (onWrites method) s) ∧ Grows s (final (onWrites method) s) := by
  have hfinal : final (onWrites method) s =
      { s with writes := final method s.writes } := Prog.final_zoom
  rw [hfinal]
  exact ⟨⟨h.nodup, h.unread, fun position hposition => hadded.subset (h.listed position hposition)⟩,
    prefix_rfl, prefix_rfl, hadded⟩

/-- **Every call keeps the invariant, and the commands and the table get longer.** -/
theorem inv_next (h : Inv s) (c : Call D) :
    Inv (next mboxIoctl mmioIoctl s c) ∧ Grows s (next mboxIoctl mmioIoctl s c) := by
  cases c with
  | addMboxRead cpuIndex command subcommand subcommandArg =>
    refine (wp_final (P := fun s' => Inv s' ∧ Grows s s')).mp ?_
    refine wp_mono (wp_addMboxRead h cpuIndex command subcommand subcommandArg) ?_ ?_
    · exact fun _ _ h => ⟨h.1, h.2.1⟩
    · exact fun _ _ h => h.elim
  | addMboxWrite cpuIndex command subcommand interfaceParameter readSubcommand
      readInterfaceParameter readMask =>
    exact inv_onWrites (prefix_addMboxWrite s.writes _ _ _ _ _ _ _) h
  | addMmioRead cpuIndex registerOffset =>
    obtain ⟨s', hrun, hinv, hgrows, -⟩ := addMmioRead_eq_ok s cpuIndex registerOffset
    have hfinal : next mboxIoctl mmioIoctl s (.addMmioRead cpuIndex registerOffset) = s' := by
      show final (addMmioRead cpuIndex registerOffset) s = s'
      unfold final
      rw [hrun]
    rw [hfinal]
    exact ⟨hinv h, hgrows⟩
  | addMmioWrite cpuIndex registerOffset registerValue readMask =>
    have hadded : s.writes.addedInterfaces <+: (final (addMmioWrite cpuIndex
        registerOffset registerValue readMask) s.writes).addedInterfaces := prefix_append _ _
    exact inv_onWrites hadded h
  | readBatch =>
    refine (wp_final (P := fun s' => Inv s' ∧ Grows s s')).mp ?_
    have hkeep : ∀ s', SameTable s s' → Inv s' ∧ Grows s s' := fun s' hs' =>
      ⟨⟨hs'.mbox ▸ h.nodup, hs'.mbox ▸ h.unread, hs'.mbox ▸ hs'.added ▸ h.listed⟩, hs'.grows⟩
    exact wp_mono wp_readBatch (fun _ s' hs' => hkeep s' hs'.1) fun _ s' hs' => hkeep s' hs'
  | others device =>
    exact ⟨⟨h.nodup, h.unread, h.listed⟩, prefix_rfl, prefix_rfl, prefix_rfl⟩

/-! ### Runs -/

variable {limit : ℕ+} {device : D} {calls before : List (Call D)}

theorem inv_after : Inv (after mboxIoctl mmioIoctl limit device calls) := by
  induction calls using List.reverseRecOn with
  | nil =>
    exact ⟨nodup_nil, fun _ he => absurd he not_mem_nil,
      fun _ h => absurd h (Nat.not_lt_zero _)⟩
  | append_singleton calls c ih =>
    unfold after at ih ⊢
    rw [foldl_concat]
    exact (inv_next ih c).1

theorem grows_after (h : before <+: calls) :
    Grows (after mboxIoctl mmioIoctl limit device before)
      (after mboxIoctl mmioIoctl limit device calls) := by
  obtain ⟨rest, rfl⟩ := h
  induction rest using List.reverseRecOn with
  | nil =>
    rw [append_nil]
    exact Grows.refl _
  | append_singleton rest c ih =>
    refine ih.trans ?_
    rw [← append_assoc]
    unfold after
    rw [foldl_concat]
    exact (inv_next inv_after c).2

theorem registered_after {cpuIndex : BitVec 32} {command subcommand : BitVec 16}
    {subcommandArg : BitVec 32} {idx : ℕ} {t : SSTIOReads D}
    (hcalls : before ++ [.addMboxRead cpuIndex command subcommand subcommandArg] <+: calls)
    (hrun : addMboxRead cpuIndex command subcommand subcommandArg
      (after mboxIoctl mmioIoctl limit device before) = .ok idx t) :
    Registered (after mboxIoctl mmioIoctl limit device calls)
      (mboxCommand cpuIndex command subcommand subcommandArg) idx := by
  have hgrows : Grows _ (after mboxIoctl mmioIoctl limit device calls) := grows_after hcalls
  unfold after at hgrows hrun ⊢
  rw [foldl_concat] at hgrows
  have hinv : Inv (after mboxIoctl mmioIoctl limit device before) := inv_after
  have hwp := wp_addMboxRead hinv cpuIndex command subcommand subcommandArg
  unfold after wp at hwp
  rw [hrun] at hwp
  refine hwp.2.2.grows ?_
  have hnext : next mboxIoctl mmioIoctl (before.foldl (next mboxIoctl mmioIoctl)
      ⟨⟨limit, device, {}, {}, []⟩, {}, {}⟩)
        (.addMboxRead cpuIndex command subcommand subcommandArg) = t := by
    show final _ _ = t
    unfold final
    rw [hrun]
  rw [hnext] at hgrows
  exact hgrows

/-- **The sample of a mailbox command** is what the driver has returned at its position. -/
theorem sample_registered {mbox : MboxInterface} {idx : ℕ} (h : Registered s mbox idx)
    (hsame : SameTable s s')
    (hanswered : s.mboxReads.readInterfaces ≠ [] → ReadChannel.Answered setMbox
      s.writes.batchCommandLimit s.mboxReads.readInterfaces s'.mboxReads) :
    ∃ (position : ℕ) (v : BitVec 32), s.mboxReads.readInterfaces[position]? = some mbox ∧
      s'.mboxReads.answers.flatten[position]? = some (mbox, v) ∧
        sample s' idx = some (v.setWidth 64) := by
  obtain ⟨position, hmbox, hadded⟩ := h
  have hne : s.mboxReads.readInterfaces ≠ [] := ne_nil_of_mem (mem_of_getElem? hmbox)
  obtain ⟨hcommands, hmessage⟩ := hanswered hne
  rw [← hcommands, getElem?_map, Option.map_eq_some_iff] at hmbox
  obtain ⟨⟨e, v⟩, hanswer, rfl⟩ := hmbox
  refine ⟨position, v, ?_, hanswer, ?_⟩
  · rw [← hcommands, getElem?_map, hanswer]
    rfl
  · unfold sample
    rw [hsame.added, hadded, hsame.limit]
    dsimp only
    rw [hmessage, hanswer]
    rfl

/-- **The sample of a register** is what the driver has returned at its position. -/
theorem sample_mmio {mmio : MmioInterface} {idx position : ℕ}
    (hmmio : s.mmioReads.readInterfaces[position]? = some mmio)
    (hadded : s.writes.addedInterfaces[idx]? = some (.mmio, position)) (hsame : SameTable s s')
    (hanswered : s.mmioReads.readInterfaces ≠ [] → ReadChannel.Answered setMmio
      s.writes.batchCommandLimit s.mmioReads.readInterfaces s'.mmioReads) :
    ∃ v : BitVec 32, s'.mmioReads.answers.flatten[position]? = some (mmio, v) ∧
      sample s' idx = some (v.setWidth 64) := by
  have hne : s.mmioReads.readInterfaces ≠ [] := ne_nil_of_mem (mem_of_getElem? hmmio)
  obtain ⟨hcommands, hmessage⟩ := hanswered hne
  rw [← hcommands, getElem?_map, Option.map_eq_some_iff] at hmmio
  obtain ⟨⟨e, v⟩, hanswer, rfl⟩ := hmmio
  refine ⟨v, hanswer, ?_⟩
  unfold sample
  rw [hsame.added, hadded, hsame.limit]
  dsimp only
  rw [hmessage, hanswer]
  rfl

/-- **The samples come from the right slots.**  After any calls and a batch that succeeds, the
sample of an index that a read has returned is what the driver has returned in this batch for the
command of the read, reads of one mailbox command have one sample, and the groups are the commands
in their order, not larger than the limit. -/
theorem sample_eq_answer (mboxIoctl : Ioctl MboxInterface D) (mmioIoctl : Ioctl MmioInterface D)
    (limit : ℕ+) (device : D) (calls : List (Call D)) (s' : SSTIOReads D)
    (hread : readBatch mboxIoctl mmioIoctl (after mboxIoctl mmioIoctl limit device calls) =
      .ok () s') :
    (∀ before cpuIndex command subcommand subcommandArg,
      before ++ [.addMboxRead cpuIndex command subcommand subcommandArg] <+: calls →
      ∃ idx t, addMboxRead cpuIndex command subcommand subcommandArg
          (after mboxIoctl mmioIoctl limit device before) = .ok idx t ∧
        ∃ v, (mboxCommand cpuIndex command subcommand subcommandArg, v) ∈
            s'.mboxReads.answers.flatten ∧
          sample s' idx = some (v.setWidth 64)) ∧
    (∀ before cpuIndex registerOffset, before ++ [.addMmioRead cpuIndex registerOffset] <+: calls →
      ∃ idx t, addMmioRead cpuIndex registerOffset
          (after mboxIoctl mmioIoctl limit device before) = .ok idx t ∧
        ∃ v, s'.mmioReads.answers.flatten[(after mboxIoctl mmioIoctl limit device
            before).mmioReads.readInterfaces.length]? =
              some (mmioCommand cpuIndex registerOffset, v) ∧
          sample s' idx = some (v.setWidth 64)) ∧
    (∀ before before' cpuIndex command subcommand subcommandArg idx idx' t t',
      before ++ [.addMboxRead cpuIndex command subcommand subcommandArg] <+: calls →
      before' ++ [.addMboxRead cpuIndex command subcommand subcommandArg] <+: calls →
      addMboxRead cpuIndex command subcommand subcommandArg
        (after mboxIoctl mmioIoctl limit device before) = .ok idx t →
      addMboxRead cpuIndex command subcommand subcommandArg
        (after mboxIoctl mmioIoctl limit device before') = .ok idx' t' →
      sample s' idx = sample s' idx') ∧
    ∀ (E : Type) (commands : List E), (ioctlStructsFromVector limit commands).flatten = commands ∧
      ∀ chunk ∈ ioctlStructsFromVector limit commands, 0 < chunk.length ∧ chunk.length ≤ limit := by
  have hwp : wp (readBatch mboxIoctl mmioIoctl) _ _ _ :=
    wp_readBatch (s := after mboxIoctl mmioIoctl limit device calls)
  unfold wp at hwp
  rw [hread] at hwp
  obtain ⟨hsame, hmbox, hmmio⟩ := hwp
  refine ⟨?_, ?_, ?_, fun E commands => ⟨Channel.flatten_ioctlStructsFromVector limit commands,
    fun chunk hchunk => length_of_mem_chunks hchunk⟩⟩
  · intro before cpuIndex command subcommand subcommandArg hcalls
    have hinv : Inv (after mboxIoctl mmioIoctl limit device before) := inv_after
    obtain ⟨idx, t, hrun, -⟩ := Prog.exists_ok_of_wp
      (wp_addMboxRead hinv cpuIndex command subcommand subcommandArg)
    obtain ⟨position, v, -, hanswer, hsample⟩ :=
      sample_registered (registered_after hcalls hrun) hsame hmbox
    exact ⟨idx, t, hrun, v, mem_of_getElem? hanswer, hsample⟩
  · intro before cpuIndex registerOffset hcalls
    obtain ⟨t, hrun, -, -, hcommands, hadded⟩ := addMmioRead_eq_ok
      (after mboxIoctl mmioIoctl limit device before) cpuIndex registerOffset
    refine ⟨_, t, hrun, ?_⟩
    have hgrows : Grows _ (after mboxIoctl mmioIoctl limit device calls) := grows_after hcalls
    have hnext : after mboxIoctl mmioIoctl limit device
        (before ++ [.addMmioRead cpuIndex registerOffset]) = t := by
      unfold after at hrun ⊢
      rw [foldl_concat]
      show final (addMmioRead cpuIndex registerOffset) _ = t
      unfold final
      rw [hrun]
    rw [hnext] at hgrows
    refine sample_mmio (getElem?_of_grown hgrows.mmio ?_) (getElem?_of_grown hgrows.added hadded)
      hsame hmmio
    rw [hcommands]
    exact getElem?_concat_length
  · intro before before' cpuIndex command subcommand subcommandArg idx idx' t t' hcalls hcalls' hrun
      hrun'
    obtain ⟨position, v, hposition, hanswer, hsample⟩ :=
      sample_registered (registered_after hcalls hrun) hsame hmbox
    obtain ⟨position', v', hposition', hanswer', hsample'⟩ :=
      sample_registered (registered_after hcalls' hrun') hsame hmbox
    -- the commands are different, so that they are at one position
    obtain ⟨hlt, heq⟩ := List.getElem?_eq_some_iff.mp hposition
    obtain ⟨hlt', heq'⟩ := List.getElem?_eq_some_iff.mp hposition'
    have hplace : position = position' :=
      (inv_after.nodup.getElem_inj_iff).mp (heq.trans heq'.symm)
    rw [hplace, hanswer'] at hanswer
    cases hanswer
    rw [hsample, hsample']

/-- Two mailboxes and a register are read, with a write between them and one mailbox again. -/
def mixedCalls : List (Call Unit) :=
  [.addMboxWrite 5 0 0 0 0 0 0xff, .addMboxRead 0 0 0 0, .addMmioRead 3 8, .addMboxRead 1 0 0 0,
    .addMboxRead 0 0 0 0]

/-- Registers that hold the numbers of their cpus. -/
def registersByCpu : Ioctl MmioInterface Unit := fun batch d =>
  (.ok fun i => (batch[i]?.map fun e => e.cpuIndex).getD 0, d)

theorem sample_eq_answer_mixed :
    let s' := final (readBatch byCpu registersByCpu)
      (after byCpu registersByCpu 1 () mixedCalls)
    ∃ idx t, addMmioRead 3 8 (after byCpu registersByCpu 1 () (mixedCalls.take 2)) =
        .ok idx t ∧
      ∃ v, s'.mmioReads.answers.flatten[(after byCpu registersByCpu 1 ()
          (mixedCalls.take 2)).mmioReads.readInterfaces.length]? = some (mmioCommand 3 8, v) ∧
        sample s' idx = some (v.setWidth 64) := by
  intro s'
  have hread := Prog.eq_ok_of_returns (m := readBatch byCpu registersByCpu)
    (s := after byCpu registersByCpu 1 () mixedCalls) (by decide +kernel)
  exact (sample_eq_answer byCpu registersByCpu 1 () mixedCalls _ hread).2.1
    (mixedCalls.take 2) 3 8 ⟨_, rfl⟩

-- the second mailbox has the value of its cpu, and the first one has one value for both indices
example :
    let s' := final (readBatch byCpu registersByCpu)
      (after byCpu registersByCpu 1 () mixedCalls)
    (List.range 4).map (sample s') = [some 1, some 1, some 3, some 2] := by
  decide +kernel

end Runs

end Geopm.Pio.SSTSample
