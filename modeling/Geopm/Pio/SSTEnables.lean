import Geopm.Pio.SSTIO

/-!
# The enables of SST

The driver rejects enabling SST-TF on a package while SST-CP is disabled there, and disabling SST-CP
while SST-TF is enabled.  So the control for the one writes the other one first, when a setting or a
saved value is equal to its trigger.

* `Driver` : what is assumed of the driver, for one package;
* `write`, `save`, `restore` : `SSTControl`; `writeControl`, `saveControl`, `restoreControl` :
  `SSTIOGroup`;
* `write_eq`, `wp_restoreControl`, `wp_saveControl` : what they do to the enables;
* `Ordered`, `Session.Inv` : SST-TF implies SST-CP, and what has been saved;
* `along_stepRight_iff` : the runs without rejected commands.
-/

namespace Geopm.SST

open Pio (onceValue)
open Function (update update_self update_of_ne update_eq_self)
open Prog (wp wp_bind wp_get wp_congr wp_mono_ok wp_mono final wp_final)
open List hiding get modify set

/-- The two controls, in the order of their names `SST::COREPRIORITY_ENABLE:ENABLE` and
`SST::TURBO_ENABLE:ENABLE`. -/
inductive Enable
  | corepriority
  | turbo
  deriving DecidableEq

/-- The control that depends on this one. -/
def Enable.other : Enable → Enable
  | .corepriority => .turbo
  | .turbo => .corepriority

/-- `begin_bit`, which is also the last bit of the field. -/
def Enable.beginBit : Enable → ℕ
  | .corepriority => 1
  | .turbo => 16

/-- `m_mask`, and the mask of what is read before a write. -/
def Enable.mask (e : Enable) : BitVec 32 := 1#32 <<< e.beginBit

/-- `m_trigger_write_value`. -/
def Enable.triggerWriteValue : Enable → ℕ
  | .corepriority => 0
  | .turbo => 1

/-- `m_dependency_write_value`. -/
def Enable.dependencyWriteValue : Enable → ℕ
  | .corepriority => 0
  | .turbo => 1

/-- `m_multiplier`. -/
def multiplier : ℚ := 1

/-- The commands that the driver rejects: enabling SST-TF without SST-CP, and disabling SST-CP with
SST-TF. -/
def Rejects (enabled : Enable → Bool) : Enable → Bool → Prop
  | .turbo, true => enabled .corepriority = false
  | .corepriority, false => enabled .turbo = true
  | _, _ => False

instance (enabled : Enable → Bool) : (e : Enable) → (b : Bool) → Decidable (Rejects enabled e b)
  | .turbo, true => inferInstanceAs (Decidable (enabled .corepriority = false))
  | .corepriority, false => inferInstanceAs (Decidable (enabled .turbo = true))
  | .turbo, false => inferInstanceAs (Decidable False)
  | .corepriority, true => inferInstanceAs (Decidable False)

/-- The driver, for one package in a state `D`: what it reads, and the state after a command, or
nothing when it is rejected.  The other bits of a register are whatever they are. -/
structure Driver (D : Type) where
  enabled : D → Enable → Bool
  read : D → Enable → BitVec 32
  write : D → Enable → BitVec 32 → Option D
  read_enabled : ∀ d e, (read d e).getLsbD e.beginBit = enabled d e
  write_none : ∀ d e word,
    write d e word = none ↔ Rejects (enabled d) e (word.getLsbD e.beginBit)
  write_some : ∀ d d' e word, write d e word = some d' →
    enabled d' = update (enabled d) e (word.getLsbD e.beginBit)

/-- An exception: of a rejected command, or of a control that is not available. -/
inductive Failure
  | rejected
  | invalid

/-- The controls of the packages, and the device; the commands that have been rejected are
counted. -/
structure Group (n : ℕ) (D : Type) where
  /-- The controls in `m_control_available`. -/
  available : Enable → Bool
  /-- `m_saved_value`. -/
  saved : Enable → Fin n → BitVec 32
  device : Fin n → D
  rejections : ℕ

variable {n : ℕ} {D : Type} (drv : Driver D) (wild : ℚ → BitVec 64)

/-- `static_cast<uint64_t>`; of a value that does not fit anything comes out. -/
def toUint64 (value : ℚ) : BitVec 64 :=
  if -1 < value ∧ value < 2 ^ 64 then BitVec.ofNat 64 ⌊value⌋.toNat else wild value

/-- Whether a setting encodes to an enabled control. -/
def encode (value : ℚ) : Bool := (toUint64 wild (value * multiplier)).getLsbD 0

def writeMboxOnce (e : Enable) (p : Fin n) (writeValue writeMask : BitVec 32) :
    EStateM Failure (Group n D) Unit := do
  let s ← get
  let word := onceValue writeValue writeMask e.mask (drv.read (s.device p) e)
  match drv.write (s.device p) e word with
  | some d => set { s with device := update s.device p d }
  | none => do
    set { s with rejections := s.rejections + 1 }
    throw .rejected

/-- `SSTControl::write`. -/
def write (e : Enable) (p : Fin n) (value : ℚ) : EStateM Failure (Group n D) Unit := do
  let s ← get
  if _h : s.available e.other = true ∧ value = e.triggerWriteValue then
    write e.other p e.dependencyWriteValue
  writeMboxOnce drv e p ((toUint64 wild (value * multiplier) <<< e.beginBit).setWidth 32) e.mask
termination_by if value = e.triggerWriteValue then 1 else 0
decreasing_by
  rw [if_pos _h.2]
  cases e <;> simp [Enable.other, Enable.triggerWriteValue, Enable.dependencyWriteValue]

/-- `SSTControl::save`. -/
def save (e : Enable) (p : Fin n) : EStateM Failure (Group n D) Unit :=
  modify fun s => { s with
    saved := update s.saved e
      (update (s.saved e) p (drv.read (s.device p) e &&& e.mask)) }

/-- `SSTControl::restore`. -/
def restore (e : Enable) (p : Fin n) : EStateM Failure (Group n D) Unit := do
  let s ← get
  if s.available e.other = true ∧ (s.saved e p).toNat = e.triggerWriteValue then
    write drv wild e.other p e.dependencyWriteValue
  writeMboxOnce drv e p (s.saved e p) e.mask

def writeControl (e : Enable) (p : Fin n) (setting : ℚ) : EStateM Failure (Group n D) Unit := do
  let s ← get
  if s.available e = true then write drv wild e p setting else throw .invalid

/-- The loop of `save_control` for one name; whether the control is not allowed. -/
def saveName (e : Enable) : EStateM Failure (Group n D) Bool := do
  let s ← get
  if s.available e = true then
    tryCatch
      (do
        (List.finRange n).forM fun p => do
          save drv e p
          restore drv wild e p
        pure false)
      fun _ => pure true
  else pure false

def saveControl : EStateM Failure (Group n D) Unit := do
  let corepriority ← saveName drv wild .corepriority
  let turbo ← saveName drv wild .turbo
  modify fun s => { s with
    available := fun e =>
      match e with
      | .corepriority => s.available .corepriority && !corepriority
      | .turbo => s.available .turbo && !turbo }

/-- The loop of `restore_control` for one name. -/
def restoreName (e : Enable) : EStateM Failure (Group n D) Unit := do
  let s ← get
  if s.available e = true then (List.finRange n).forM fun p => restore drv wild e p

def restoreControl : EStateM Failure (Group n D) Unit := do
  restoreName drv wild .corepriority
  restoreName drv wild .turbo

/-! ### Commands -/

section Commands

variable {drv wild} {s : Group n D} {e : Enable} {p : Fin n} {value : ℚ}

/-- The enables of the packages. -/
def Group.enables (drv : Driver D) (s : Group n D) (p : Fin n) : Enable → Bool :=
  drv.enabled (s.device p)

/-- SST-TF implies SST-CP. -/
def Ordered (en : Fin n → Enable → Bool) : Prop :=
  ∀ p, en p .turbo = true → en p .corepriority = true

/-- The enables with one of them changed. -/
def assign (en : Fin n → Enable → Bool) (p : Fin n) (e : Enable) (b : Bool) :
    Fin n → Enable → Bool := update en p (update (en p) e b)

/-- Only the enables change, and nothing is rejected. -/
structure Follows (drv : Driver D) (s : Group n D) (en : Fin n → Enable → Bool) (s' : Group n D) :
    Prop where
  available : s'.available = s.available
  saved : s'.saved = s.saved
  enables : s'.enables drv = en
  rejections : s'.rejections = s.rejections

theorem Follows.refl (s : Group n D) : Follows drv s (s.enables drv) s := ⟨rfl, rfl, rfl, rfl⟩

theorem Follows.trans {en en' : Fin n → Enable → Bool} {s' s'' : Group n D}
    (h : Follows drv s en s') (h' : Follows drv s' en' s'') : Follows drv s en' s'' :=
  ⟨h'.available.trans h.available, h'.saved.trans h.saved, h'.enables,
    h'.rejections.trans h.rejections⟩

theorem getLsbD_mask (e : Enable) : e.mask.getLsbD e.beginBit = true := by
  cases e <;> decide

theorem beginBit_lt (e : Enable) : e.beginBit < 32 := by
  cases e <;> decide

/-- The enable bit of the word that is sent. -/
theorem getLsbD_onceValue (e : Enable) (word readMask read : BitVec 32) :
    (onceValue word e.mask readMask read).getLsbD e.beginBit = word.getLsbD e.beginBit := by
  simp [onceValue, getLsbD_mask, beginBit_lt]

theorem getLsbD_setting (e : Enable) (u : BitVec 64) :
    ((u <<< e.beginBit).setWidth 32).getLsbD e.beginBit = u.getLsbD 0 := by
  simp [beginBit_lt e]

theorem wp_writeMboxOnce (drv : Driver D) {word : BitVec 32} {b : Bool} (hb : word.getLsbD e.beginBit = b)
    (h : ¬ Rejects (s.enables drv p) e b) : wp (writeMboxOnce drv e p word e.mask)
      (fun _ s' => Follows drv s (assign (s.enables drv) p e b) s') (fun _ _ => False) s := by
  rw [writeMboxOnce, wp_bind, wp_get]
  dsimp only
  cases hwrite : drv.write (s.device p) e
      (onceValue word e.mask e.mask (drv.read (s.device p) e)) with
  | none =>
    rw [drv.write_none, getLsbD_onceValue, hb] at hwrite
    exact absurd hwrite h
  | some d =>
    have henabled := drv.write_some _ _ _ _ hwrite
    rw [getLsbD_onceValue, hb] at henabled
    refine Prog.wp_set.mpr ⟨rfl, rfl, ?_, rfl⟩
    funext q
    by_cases hq : q = p
    · subst hq
      simp only [Group.enables, assign, update_self]
      exact henabled
    · simp only [Group.enables, assign, update_of_ne hq]

theorem writeMboxOnce_of_rejects {word : BitVec 32}
    (h : Rejects (s.enables drv p) e (word.getLsbD e.beginBit)) :
    writeMboxOnce drv e p word e.mask s =
      .error .rejected { s with rejections := s.rejections + 1 } := by
  have hwrite : drv.write (s.device p) e
      (onceValue word e.mask e.mask (drv.read (s.device p) e)) = none := by
    rw [drv.write_none, getLsbD_onceValue]
    exact h
  rw [writeMboxOnce]
  change (match drv.write (s.device p) e _ with | some d => _ | none => _ :
    EStateM Failure (Group n D) Unit) s = _
  rw [hwrite]
  rfl

/-! ### Writes -/

/-- A setting that encodes to a command which is rejected is the trigger of the control. -/
def Safe (wild : ℚ → BitVec 64) (enabled : Enable → Bool) (e : Enable) (value : ℚ) : Prop :=
  Rejects enabled e (encode wild value) → value = e.triggerWriteValue

/-- The enables after a write. -/
def written (wild : ℚ → BitVec 64) (en : Fin n → Enable → Bool) (p : Fin n) (e : Enable)
    (value : ℚ) : Fin n → Enable → Bool :=
  if value = e.triggerWriteValue then
    assign (assign en p e.other (encode wild e.dependencyWriteValue)) p e (encode wild value)
  else assign en p e (encode wild value)

theorem encode_zero : encode wild 0 = false := by
  have hu : toUint64 wild (0 * multiplier) = 0#64 := by
    rw [zero_mul, toUint64, if_pos (by norm_num)]
    rfl
  rw [encode, hu]
  rfl

theorem encode_one : encode wild 1 = true := by
  have hu : toUint64 wild (1 * multiplier) = 1#64 := by
    rw [multiplier, one_mul, toUint64, if_pos (by norm_num)]
    rfl
  rw [encode, hu]
  rfl

/-- The trigger of a control encodes to what it waits for, and so does what it writes. -/
theorem encode_trigger (e : Enable) :
    encode wild e.triggerWriteValue = decide (e = .turbo) := by
  cases e
  · exact (congrArg _ Nat.cast_zero).trans encode_zero
  · exact (congrArg _ Nat.cast_one).trans encode_one

theorem encode_dependency (e : Enable) :
    encode wild e.dependencyWriteValue = decide (e = .turbo) := by
  cases e
  · exact (congrArg _ Nat.cast_zero).trans encode_zero
  · exact (congrArg _ Nat.cast_one).trans encode_one

theorem dependencyWriteValue_ne (e : Enable) :
    (e.dependencyWriteValue : ℚ) ≠ e.other.triggerWriteValue := by
  cases e <;> simp [Enable.other, Enable.dependencyWriteValue, Enable.triggerWriteValue]

theorem write_of_ne (h : value ≠ e.triggerWriteValue) (s : Group n D) :
    write drv wild e p value s = writeMboxOnce drv e p
      ((toUint64 wild (value * multiplier) <<< e.beginBit).setWidth 32) e.mask s := by
  rw [write]
  change (if _h : s.available e.other = true ∧ value = e.triggerWriteValue then _ else _ :
    EStateM Failure (Group n D) Unit) s = _
  rw [dif_neg fun hc => h hc.2]

theorem wp_write_dependency (e : Enable) : wp (write drv wild e.other p e.dependencyWriteValue)
    (fun _ s' => Follows drv s
      (assign (s.enables drv) p e.other (encode wild e.dependencyWriteValue)) s')
    (fun _ _ => False) s := by
  rw [wp_congr (write_of_ne (dependencyWriteValue_ne e) s)]
  refine wp_writeMboxOnce drv (b := encode wild e.dependencyWriteValue) (getLsbD_setting _ _) ?_
  rw [encode_dependency]
  cases e <;> simp [Rejects, Enable.other]

theorem not_rejects_after (wild : ℚ → BitVec 64) (en : Fin n → Enable → Bool) (p : Fin n) (e : Enable) :
    ¬ Rejects (assign en p e.other (encode wild e.dependencyWriteValue) p) e
      (encode wild e.triggerWriteValue) := by
  rw [encode_trigger, encode_dependency, assign, update_self]
  cases e <;> simp [Rejects, Enable.other]

/-- **A write that is safe.** -/
theorem wp_write (havailable : s.available e.other = true)
    (h : Safe wild (s.enables drv p) e value) : wp (write drv wild e p value)
      (fun _ s' => Follows drv s (written wild (s.enables drv) p e value) s')
      (fun _ _ => False) s := by
  by_cases htrigger : value = e.triggerWriteValue
  · subst htrigger
    rw [write, wp_bind, wp_get, dif_pos ⟨havailable, rfl⟩, wp_bind]
    refine wp_mono_ok (wp_write_dependency e) fun _ s₁ h₁ => ?_
    have hword := wp_writeMboxOnce drv (s := s₁) (p := p) (e := e)
      (getLsbD_setting e (toUint64 wild (e.triggerWriteValue * multiplier)))
      (by rw [h₁.enables]; exact not_rejects_after wild _ p e)
    refine wp_mono_ok hword fun _ s₂ h₂ => ?_
    rw [written, if_pos rfl]
    rw [h₁.enables] at h₂
    exact h₁.trans h₂
  · rw [wp_congr (write_of_ne htrigger s), written, if_neg htrigger]
    exact wp_writeMboxOnce drv (getLsbD_setting _ _) fun hrejects => htrigger (h hrejects)

theorem write_of_not_safe (h : ¬ Safe wild (s.enables drv p) e value) :
    write drv wild e p value s = .error .rejected { s with rejections := s.rejections + 1 } := by
  obtain ⟨hrejects, htrigger⟩ := Classical.not_imp.mp h
  rw [write_of_ne htrigger, writeMboxOnce_of_rejects]
  rwa [getLsbD_setting]

/-! ### Saving and restoring -/

/-- What is saved of an enable. -/
def savedWord (e : Enable) (b : Bool) : BitVec 32 := if b then e.mask else 0

theorem getLsbD_savedWord (e : Enable) (b : Bool) :
    (savedWord e b).getLsbD e.beginBit = b := by
  cases b
  · simp [savedWord]
  · exact getLsbD_mask e

/-- Only a disabled SST-CP is a trigger when it is restored: the saved bit of SST-TF is not shifted
back. -/
theorem savedWord_eq_trigger_iff (e : Enable) (b : Bool) :
    (savedWord e b).toNat = e.triggerWriteValue ↔ e = .corepriority ∧ b = false := by
  cases e <;> cases b <;> decide

theorem and_mask (e : Enable) (word : BitVec 32) :
    word &&& e.mask = savedWord e (word.getLsbD e.beginBit) := by
  have hmask : e.mask = BitVec.twoPow 32 e.beginBit := by
    cases e <;> rfl
  rw [hmask, BitVec.and_twoPow, savedWord, hmask]
  rfl

/-- The enables of a package after one of them has been restored. -/
def restored (en : Fin n → Enable → Bool) (p : Fin n) (e : Enable) (b : Bool) :
    Fin n → Enable → Bool :=
  if e = .corepriority ∧ b = false then assign (assign en p .turbo false) p .corepriority false
  else assign en p e b

variable {en : Fin n → Enable → Bool}

/-- Restoring a package depends on that package only, and changes no other one. -/
theorem restored_of_ne {q : Fin n} {b : Bool} (h : q ≠ p) :
    restored en p e b q = en q := by
  rw [restored]
  split
  · rw [assign, update_of_ne h, assign, update_of_ne h]
  · rw [assign, update_of_ne h]

theorem restored_congr {en en' : Fin n → Enable → Bool} {b : Bool} (h : en p = en' p) :
    restored en p e b p = restored en' p e b p := by
  rw [restored, restored]
  split <;> simp only [assign, update_self, h]

theorem restored_self (hordered : Ordered en) (p : Fin n)
    (e : Enable) : restored en p e (en p e) = en := by
  rw [restored]
  split
  · next h =>
    obtain ⟨rfl, hcp⟩ := h
    have htf : en p .turbo = false := by
      by_contra htf
      rw [hordered p (by simpa using htf)] at hcp
      cases hcp
    have hfirst : assign en p .turbo false = en := by
      rw [assign, ← htf, update_eq_self, update_eq_self]
    rw [hfirst, assign, ← hcp, update_eq_self, update_eq_self]
  · rw [assign, update_eq_self, update_eq_self]

theorem wp_restore {b : Bool} (havailable : s.available e.other = true)
    (hsaved : s.saved e p = savedWord e b)
    (hsafe : e = .turbo → b = true → s.enables drv p .corepriority = true) :
    wp (restore drv wild e p)
      (fun _ s' => Follows drv s (restored (s.enables drv) p e b) s') (fun _ _ => False) s := by
  rw [restore, wp_bind, wp_get]
  dsimp only
  by_cases htrigger : e = .corepriority ∧ b = false
  · obtain ⟨rfl, rfl⟩ := htrigger
    rw [if_pos ⟨havailable, hsaved ▸ (savedWord_eq_trigger_iff _ _).mpr ⟨rfl, rfl⟩⟩, wp_bind]
    refine wp_mono_ok (wp_write_dependency .corepriority) fun _ s₁ h₁ => ?_
    have hafter := not_rejects_after wild (s.enables drv) p .corepriority
    rw [encode_trigger] at hafter
    have hword := wp_writeMboxOnce drv (s := s₁) (p := p) (e := .corepriority) (b := false)
      (show (s.saved .corepriority p).getLsbD _ = false from hsaved ▸ getLsbD_savedWord _ _)
      (by rw [h₁.enables]; exact hafter)
    refine wp_mono_ok hword fun _ s₂ h₂ => ?_
    rw [h₁.enables, encode_dependency] at h₂
    exact h₁.trans h₂
  · rw [if_neg fun h => htrigger ((savedWord_eq_trigger_iff e b).mp (hsaved ▸ h.2)), restored,
      if_neg htrigger]
    refine wp_writeMboxOnce drv (b := b) (hsaved ▸ getLsbD_savedWord _ _) ?_
    cases e with
    | corepriority =>
      have hb : b = true := by simpa using htrigger
      rw [hb]
      exact id
    | turbo =>
      cases b with
      | false => exact id
      | true =>
        intro hrejects
        have hcp : s.enables drv p .corepriority = false := hrejects
        rw [hsafe rfl rfl] at hcp
        cases hcp

/-- What has been restored when the packages up to here are done. -/
def restoredUpTo (en : Fin n → Enable → Bool) (e : Enable) (b : Fin n → Bool)
    (done : List (Fin n)) : Fin n → Enable → Bool :=
  fun p => if p ∈ done then restored en p e (b p) p else en p

/-- The packages of a list are different. -/
theorem not_mem_of_finRange {pre post : List (Fin n)} (h : List.finRange n = pre ++ p :: post) :
    p ∉ pre := by
  have hnodup := nodup_finRange n
  rw [h] at hnodup
  exact fun hmem => (nodup_append.mp hnodup).2.2 p hmem p mem_cons_self rfl

theorem wp_restoreName {b : Fin n → Bool} (havailable : ∀ e, s.available e = true)
    (hsaved : ∀ p, s.saved e p = savedWord e (b p))
    (hsafe : e = .turbo → ∀ p, b p = true → s.enables drv p .corepriority = true) :
    wp (restoreName drv wild e)
      (fun _ s' => Follows drv s (fun p => restored (s.enables drv) p e (b p) p) s')
      (fun _ _ => False) s := by
  rw [restoreName, wp_bind, wp_get, if_pos (havailable e)]
  refine wp_mono (Prog.wp_forM_done
    (I := fun pre s' => Follows drv s (restoredUpTo (s.enables drv) e b pre) s') ?_ ?_) ?_
    fun _ _ h => h
  · exact Follows.refl s
  · intro pre p post hsplit s₁ h₁
    have hnew := not_mem_of_finRange hsplit
    have hat : s₁.enables drv p = s.enables drv p := by
      rw [h₁.enables, restoredUpTo, if_neg hnew]
    refine wp_mono_ok (wp_restore (b := b p) (h₁.available ▸ havailable e.other)
      (h₁.saved ▸ hsaved p) fun he hb => ?_) fun _ s₂ h₂ => ?_
    · rw [hat]
      exact hsafe he p hb
    · refine h₁.trans (show Follows drv s₁ _ s₂ from ?_)
      convert h₂ using 1
      funext q
      by_cases hq : q = p
      · subst hq
        rw [restoredUpTo, if_pos (mem_append_right _ mem_cons_self)]
        exact restored_congr hat.symm
      · rw [restored_of_ne hq, h₁.enables, restoredUpTo, restoredUpTo]
        simp [hq]
  · intro _ s' h
    convert h using 1
    funext p
    rw [restoredUpTo, if_pos (mem_finRange p)]

/-- **Restoring puts the enables back**, when they were in order. -/
theorem wp_restoreControl (drv : Driver D) (wild : ℚ → BitVec 64) (havailable : ∀ e, s.available e = true)
    (hsaved : ∀ e p, s.saved e p = savedWord e (en p e)) (hordered : Ordered en) :
    wp (restoreControl drv wild) (fun _ s' => Follows drv s en s') (fun _ _ => False) s := by
  rw [restoreControl, wp_bind]
  refine wp_mono_ok (wp_restoreName (b := fun p => en p .corepriority) havailable
    (hsaved .corepriority) nofun) fun _ s₁ h₁ => ?_
  have hcp : ∀ p, s₁.enables drv p .corepriority = en p .corepriority := by
    intro p
    rw [h₁.enables]
    dsimp only
    rw [restored]
    split
    · next h => simp [assign, h.2]
    · simp [assign]
  refine wp_mono_ok (wp_restoreName (e := .turbo) (b := fun p => en p .turbo)
    (h₁.available ▸ havailable) (h₁.saved ▸ hsaved .turbo) fun _ p hp => ?_) fun _ s₂ h₂ => ?_
  · rw [hcp]
    exact hordered p hp
  · refine h₁.trans ?_
    convert h₂ using 1
    funext p e
    rw [restored, if_neg (by simp)]
    cases e with
    | corepriority => simp [assign, hcp]
    | turbo => simp [assign]

/-- The enables of some packages have been saved, and nothing else has changed. -/
structure Saves (drv : Driver D) (s : Group n D) (e : Enable) (done : List (Fin n))
    (s' : Group n D) : Prop where
  available : s'.available = s.available
  saved_of_ne : ∀ e', e' ≠ e → s'.saved e' = s.saved e'
  saved : ∀ p ∈ done, s'.saved e p = savedWord e (s.enables drv p e)
  enables : s'.enables drv = s.enables drv
  rejections : s'.rejections = s.rejections

/-- The loop that saves one of the enables of each package, and restores it at once. -/
theorem wp_saveName (havailable : ∀ e, s.available e = true) (hordered : Ordered (s.enables drv)) :
    wp (saveName drv wild e)
      (fun failed s' => failed = false ∧ Saves drv s e (List.finRange n) s') (fun _ _ => False)
      s := by
  rw [saveName, wp_bind, wp_get, if_pos (havailable e), Prog.wp_tryCatch, wp_bind]
  refine wp_mono (Prog.wp_forM_done (E := fun _ _ => False)
    (I := fun pre s' => Saves drv s e pre s') ?_ ?_) ?_ fun _ _ h => h.elim
  · exact ⟨rfl, fun _ _ => rfl, fun _ hp => absurd hp not_mem_nil, rfl, rfl⟩
  · intro pre p post _ s₁ h₁
    rw [wp_bind, save, Prog.wp_modify]
    generalize hs₂ : ({ s₁ with saved := _ } : Group n D) = s₂
    have hword : s₂.saved e p = savedWord e (s₂.enables drv p e) := by
      rw [← hs₂]
      simp only [update_self, Group.enables]
      rw [and_mask, drv.read_enabled]
    have henables : s₂.enables drv = s.enables drv := by
      rw [← h₁.enables, ← hs₂]
      rfl
    have havailable₂ : s₂.available e.other = true := by
      rw [← hs₂]
      exact h₁.available ▸ havailable e.other
    refine wp_mono_ok (wp_restore havailable₂ hword fun he hb => ?_) fun _ s₃ h₃ => ?_
    · subst he
      rw [henables] at hb ⊢
      exact hordered p hb
    · rw [restored_self (henables ▸ hordered)] at h₃
      refine ⟨?_, ?_, ?_, h₃.enables.trans henables, ?_⟩
      · rw [h₃.available, ← hs₂]
        exact h₁.available
      · intro e' he'
        rw [h₃.saved, ← hs₂]
        exact (update_of_ne he' _ _).trans (h₁.saved_of_ne e' he')
      · intro q hq
        by_cases hqp : q = p
        · subst hqp
          rw [h₃.saved, hword, henables]
        · obtain hq | hq := mem_append.mp hq
          · rw [h₃.saved, ← hs₂]
            simp only [update_self, update_of_ne hqp]
            exact h₁.saved q hq
          · exact absurd (mem_singleton.mp hq) hqp
      · rw [h₃.rejections, ← hs₂]
        exact h₁.rejections
  · exact fun _ s' h => ⟨rfl, h⟩

/-- **Saving saves the enables** and leaves them as they are, when they are in order. -/
theorem wp_saveControl (wild : ℚ → BitVec 64) (havailable : ∀ e, s.available e = true)
    (hordered : Ordered (s.enables drv)) : wp (saveControl drv wild)
      (fun _ s' => (∀ e, s'.available e = true) ∧ s'.enables drv = s.enables drv ∧
        s'.rejections = s.rejections ∧ ∀ e p, s'.saved e p = savedWord e (s.enables drv p e))
      (fun _ _ => False) s := by
  rw [saveControl, wp_bind]
  refine wp_mono (wp_saveName havailable hordered) ?_ fun _ _ h => h
  rintro _ s₁ ⟨rfl, h₁⟩
  rw [wp_bind]
  refine wp_mono (wp_saveName (h₁.available ▸ havailable) (h₁.enables ▸ hordered)) ?_
    fun _ _ h => h
  rintro _ s₂ ⟨rfl, h₂⟩
  have havailable₂ : ∀ e, s₂.available e = true := by
    rw [h₂.available, h₁.available]
    exact havailable
  rw [Prog.wp_modify]
  refine ⟨fun e => ?_, h₂.enables.trans h₁.enables, h₂.rejections.trans h₁.rejections, ?_⟩
  · cases e <;> simp [havailable₂]
  · intro e p
    cases e with
    | corepriority =>
      rw [h₂.saved_of_ne .corepriority (by decide)]
      exact h₁.saved p (mem_finRange p)
    | turbo => rw [h₂.saved p (mem_finRange p), h₁.enables]

end Commands

/-! ### Runs -/

/-- The operations of the group. -/
inductive Op (n : ℕ)
  | writeControl (e : Enable) (p : Fin n) (setting : ℚ)
  | saveControl
  | restoreControl

/-- The group, and the enables when they were last saved. -/
structure Session (n : ℕ) (D : Type) where
  group : Group n D
  last : Option (Fin n → Enable → Bool)

/-- An operation. -/
def perform : Op n → EStateM Failure (Group n D) Unit
  | .writeControl e p setting => writeControl drv wild e p setting
  | .saveControl => saveControl drv wild
  | .restoreControl => restoreControl drv wild

def next (x : Session n D) (op : Op n) : Session n D where
  group := final (perform drv wild op) x.group
  last :=
    match op with
    | .saveControl => some (x.group.enables drv)
    | _ => x.last

/-- A new group, for the packages of a device. -/
def start (device : Fin n → D) : Session n D where
  group := { available := fun _ => true, saved := fun _ _ => 0, device, rejections := 0 }
  last := none

/-- `PlatformIOImp::write_control_convert_domain`, for a request for the board: each package gets an
equal share. -/
def boardRequest (n : ℕ) (e : Enable) (setting : ℚ) : List (Op n) :=
  (List.finRange n).map fun p => .writeControl e p (setting / n)

/-- No command is rejected; a control that is written has the value that the setting encodes to, and
restoring puts the enables back as they were saved. -/
def StepRight (x : Session n D) (op : Op n) : Prop :=
  (next drv wild x op).group.rejections = x.group.rejections ∧
    match op with
    | .writeControl e p setting =>
      (next drv wild x op).group.enables drv p e = encode wild setting
    | .saveControl => True
    | .restoreControl => ∀ en, x.last = some en → (next drv wild x op).group.enables drv = en

/-- The condition: a setting that encodes to a command which the driver rejects in this state is
the trigger of the control. -/
def StepSafe (x : Session n D) : Op n → Prop
  | .writeControl e p setting => Safe wild (x.group.enables drv p) e setting
  | _ => True

/-- SST-TF implies SST-CP, and the saved values are those of enables in order. -/
structure Session.Inv (x : Session n D) : Prop where
  available : ∀ e, x.group.available e = true
  ordered : Ordered (x.group.enables drv)
  saved : ∃ en, Ordered en ∧ (∀ e p, x.group.saved e p = savedWord e (en p e)) ∧
    ∀ en', x.last = some en' → en' = en

section Runs

variable {drv wild} {x : Session n D}

theorem inv_start {device : Fin n → D} (h : ∀ p, drv.enabled (device p) .turbo = true →
    drv.enabled (device p) .corepriority = true) : (start device).Inv drv :=
  ⟨fun _ => rfl, h, fun _ _ => false, nofun, fun _ _ => rfl, nofun⟩

theorem written_apply (en : Fin n → Enable → Bool) (p : Fin n) (e : Enable) (value : ℚ) :
    written wild en p e value p e = encode wild value := by
  rw [written]
  split <;> simp [assign]

/-- A safe write keeps the enables in order. -/
theorem ordered_written {en : Fin n → Enable → Bool} {p : Fin n} {e : Enable} {value : ℚ}
    (h : Ordered en) (hsafe : Safe wild (en p) e value) : Ordered (written wild en p e value) := by
  intro q
  rw [written]
  by_cases hq : q = p
  · subst hq
    by_cases htrigger : value = e.triggerWriteValue
    · rw [if_pos htrigger, htrigger, encode_trigger, encode_dependency]
      cases e <;> simp [assign, Enable.other]
    · rw [if_neg htrigger]
      have hnot : ¬ Rejects (en q) e (encode wild value) := fun hr => htrigger (hsafe hr)
      have hen := h q
      cases e <;> cases hb : encode wild value <;> rw [hb] at hnot <;>
        simp_all [assign, Rejects]
  · split <;> simp only [assign, update_of_ne hq] <;> exact h q

/-- **One step**: it is right just when it is safe, and keeps the invariant in either case. -/
theorem step_spec (h : x.Inv drv) (op : Op n) :
    (StepRight drv wild x op ↔ StepSafe drv wild x op) ∧ (next drv wild x op).Inv drv := by
  obtain ⟨havailable, hordered, en, hen, hsaved, hlast⟩ := h
  cases op with
  | writeControl e p setting =>
    have hperform : final (perform drv wild (.writeControl e p setting)) x.group =
        final (write drv wild e p setting) x.group := by
      rw [perform, writeControl]
      change final (if x.group.available e = true then _ else _) x.group = _
      rw [if_pos (havailable e)]
    by_cases hsafe : Safe wild (x.group.enables drv p) e setting
    · have hwrite := (wp_final (P := Follows drv x.group
        (written wild (x.group.enables drv) p e setting))).mp (wp_mono
        (wp_write (havailable e.other) hsafe) (fun _ _ h => h) fun _ _ h => h.elim)
      rw [← hperform] at hwrite
      refine ⟨iff_of_true ⟨hwrite.rejections, ?_⟩ hsafe, ?_, ?_, en, hen, ?_, hlast⟩
      · exact (congrFun (congrFun hwrite.enables p) e).trans (written_apply _ p e setting)
      · exact hwrite.available ▸ havailable
      · exact hwrite.enables ▸ ordered_written hordered hsafe
      · exact hwrite.saved ▸ hsaved
    · have hfinal : final (perform drv wild (.writeControl e p setting)) x.group =
          { x.group with rejections := x.group.rejections + 1 } := by
        rw [hperform, final, write_of_not_safe hsafe]
      have hgroup : (next drv wild x (.writeControl e p setting)).group =
          { x.group with rejections := x.group.rejections + 1 } := hfinal
      refine ⟨iff_of_false (fun hright => ?_) hsafe, ?_⟩
      · have hcount := hright.1
        rw [hgroup] at hcount
        exact absurd hcount (Nat.succ_ne_self _)
      · refine ⟨?_, ?_, en, hen, ?_, hlast⟩
        · rw [hgroup]
          exact havailable
        · rw [hgroup]
          exact hordered
        · rw [hgroup]
          exact hsaved
  | saveControl =>
    have hsave := wp_final.mp (wp_mono (wp_saveControl wild havailable hordered)
      (fun _ _ h => h) (fun _ _ h => h.elim))
    obtain ⟨havailable', henables, hrejections, hsaved'⟩ := hsave
    refine ⟨iff_of_true ⟨hrejections, trivial⟩ trivial, havailable', henables ▸ hordered,
      x.group.enables drv, hordered, hsaved', ?_⟩
    rintro en' h
    exact (Option.some.inj h).symm
  | restoreControl =>
    have hrestore := (wp_final (P := Follows drv x.group en)).mp (wp_mono
      (wp_restoreControl drv wild havailable hsaved hen) (fun _ _ h => h) fun _ _ h => h.elim)
    refine ⟨iff_of_true ⟨hrestore.rejections, fun en' h => ?_⟩ trivial, ?_, ?_, en, hen, ?_, hlast⟩
    · exact hrestore.enables.trans (hlast en' h).symm
    · exact hrestore.available ▸ havailable
    · exact hrestore.enables ▸ hen
    · exact hrestore.saved ▸ hsaved

theorem safe_of_zero_or_one {enabled : Enable → Bool} {value : ℚ} (e : Enable)
    (h : value = 0 ∨ value = 1) : Safe wild enabled e value := by
  rw [Safe]
  obtain rfl | rfl := h
  · rw [encode_zero]
    cases e <;> simp [Rejects, Enable.triggerWriteValue]
  · rw [encode_one]
    cases e <;> simp [Rejects, Enable.triggerWriteValue]

theorem safe_of_encode {enabled : Enable → Bool} {value : ℚ} {e : Enable}
    (h : encode wild value = decide (e = .corepriority)) : Safe wild enabled e value := by
  rw [Safe, h]
  cases e <;> exact fun hrejects => hrejects.elim

end Runs

/-- **The runs in which the enables are ordered**: from a device on which SST-TF implies SST-CP,
each write, save and restore of a run is right just when each of the settings is safe in the state
that it is written in. -/
theorem along_stepRight_iff (device : Fin n → D) (ops : List (Op n))
    (h : ∀ p, drv.enabled (device p) .turbo = true →
      drv.enabled (device p) .corepriority = true) :
    Lts.Along (StepRight drv wild) (next drv wild) (start device) ops ↔
      Lts.Along (StepSafe drv wild) (next drv wild) (start device) ops :=
  Lts.along_congr (I := Session.Inv drv) (fun _ op h => (step_spec h op).2)
    (fun _ op h => (step_spec h op).1) (inv_start h)

/-- A driver that stores the two enables. -/
def plainDriver : Driver (Enable → Bool) where
  enabled := id
  read d e := savedWord e (d e)
  write d e word :=
    if Rejects d e (word.getLsbD e.beginBit) then none
    else some (update d e (word.getLsbD e.beginBit))
  read_enabled d e := getLsbD_savedWord e (d e)
  write_none d e word := by simp
  write_some d d' e word h := by
    by_cases hrejects : Rejects d e (word.getLsbD e.beginBit)
    · rw [if_pos hrejects] at h
      cases h
    · rw [if_neg hrejects] at h
      exact (Option.some.inj h).symm

theorem encode_half : encode wild (1 / 2) = false := by
  have hu : toUint64 wild (1 / 2 * multiplier) = 0#64 := by
    rw [multiplier, mul_one, toUint64, if_pos (by norm_num), show ⌊(1 / 2 : ℚ)⌋ = 0 by norm_num]
    rfl
  rw [encode, hu]
  rfl

theorem along_stepRight_twoPackages :
    Lts.Along (StepRight plainDriver fun _ => 0) (next plainDriver fun _ => 0)
      (start fun _ : Fin 2 => fun _ => false)
      [.saveControl, .writeControl .turbo 0 1, .writeControl .corepriority 0 0,
        .writeControl .turbo 1 (1 / 2), .restoreControl] := by
  refine (along_stepRight_iff plainDriver _ _ _ fun _ h => absurd h (by decide)).mpr ?_
  refine Lts.along_of_forall fun x op hop => ?_
  simp only [mem_cons, not_mem_nil, or_false] at hop
  obtain rfl | rfl | rfl | rfl | rfl := hop
  · trivial
  · exact safe_of_zero_or_one _ (.inr rfl)
  · exact safe_of_zero_or_one _ (.inl rfl)
  · exact safe_of_encode (encode_half _)
  · trivial

/-- The shares of a request for the board that enables SST-CP disable it instead, which is rejected
while SST-TF is enabled. -/
theorem not_along_stepRight :
    ¬ Lts.Along (StepRight plainDriver fun _ => 0) (next plainDriver fun _ => 0)
      (start fun _ : Fin 2 => fun _ => true) (boardRequest 2 .corepriority 1) := by
  rintro ⟨hright, -⟩
  have hinv : (start fun _ : Fin 2 => fun _ => true : Session 2 (Enable → Bool)).Inv plainDriver :=
    inv_start fun _ _ => rfl
  have hsafe : Safe (fun _ => 0) (fun _ => true) .corepriority (1 / (2 : ℕ)) :=
    (step_spec hinv _).1.mp hright
  rw [Safe, Nat.cast_ofNat, encode_half] at hsafe
  exact absurd (hsafe rfl) (by norm_num [Enable.triggerWriteValue])

end Geopm.SST
