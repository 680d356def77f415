import Geopm.Service.World

/-!
# `system_files.WriteLock`

The lock files hold the PID of their owner, or nothing.  A lock file may only be touched inside a
`with WriteLock(...)` context, and `_is_file_active`, which belongs to the class, forbids entering
a context while another one is open, whatever file it is for.

Opening the lock file and taking the advisory lock are assumed to succeed: only `geopmd` has
access to `/run/geopm`.
-/

namespace Geopm

/-- The argument of `int(...)`: a PID, or a string that a caller passed in its place. -/
inductive PidArg where
  | pid (p : Pid)
  | str (s : String)
deriving DecidableEq, Repr

instance : Coe Pid PidArg := ⟨.pid⟩

/-- `str.isspace`. -/
def pyIsSpace (c : Char) : Bool :=
  let n := c.toNat
  (9 ≤ n && n ≤ 13) || (28 ≤ n && n ≤ 32) || n == 0x85 || n == 0xa0 || n == 0x1680 ||
    (0x2000 ≤ n && n ≤ 0x200a) || n == 0x2028 || n == 0x2029 || n == 0x202f || n == 0x205f ||
    n == 0x3000

/-- `str.strip`. -/
def pyStrip (cs : List Char) : List Char :=
  ((cs.dropWhile pyIsSpace).reverse.dropWhile pyIsSpace).reverse

/-- Decimal digits, with single underscores between them; `digit` says whether the last character
was a digit. -/
def parseDigits (acc : ℕ) (digit : Bool) : List Char → Option ℕ
  | [] => if digit then some acc else none
  | c :: cs =>
    if '0' ≤ c ∧ c ≤ '9' then parseDigits (10 * acc + (c.toNat - '0'.toNat)) true cs
    else if c = '_' ∧ digit then parseDigits acc false cs
    else none

/-- `int(s)` for a string of ASCII characters. -/
def pyInt? (s : String) : Option ℤ :=
  match pyStrip s.toList with
  | '-' :: cs => (parseDigits 0 false cs).map fun n => -(n : ℤ)
  | '+' :: cs => (parseDigits 0 false cs).map fun n => (n : ℤ)
  | cs => (parseDigits 0 false cs).map fun n => (n : ℤ)

section

variable {cs : List Char} {c : Char}

theorem toNat_of_isDigit (h : c.isDigit) : 48 ≤ c.toNat ∧ c.toNat ≤ 57 := by
  simpa [Char.isDigit, Char.le_def, UInt32.le_iff_toNat_le] using h

theorem not_isSpace_of_isDigit (h : c.isDigit) : pyIsSpace c = false := by
  have hc := toNat_of_isDigit h
  simp [pyIsSpace]
  omega

theorem dropWhile_of_all {p : Char → Bool} (h : ∀ c ∈ cs, p c = false) : cs.dropWhile p = cs := by
  cases cs with
  | nil => rfl
  | cons c cs =>
    rw [List.dropWhile_cons, h c List.mem_cons_self]
    rfl

theorem pyStrip_of_all (h : ∀ c ∈ cs, pyIsSpace c = false) : pyStrip cs = cs := by
  rw [pyStrip, dropWhile_of_all h, dropWhile_of_all (by simpa using h), List.reverse_reverse]

theorem parseDigits_of_all (acc : ℕ) (digit : Bool) (h : ∀ c ∈ cs, c.isDigit)
    (hne : cs ≠ [] ∨ digit = true) :
    parseDigits acc digit cs = some (Nat.ofDigitChars 10 cs acc) := by
  induction cs generalizing acc digit with
  | nil =>
    obtain rfl : digit = true := by simpa using hne
    rfl
  | cons c cs ih =>
    have hc : '0' ≤ c ∧ c ≤ '9' := by
      simpa [Char.isDigit, Char.le_def] using h c List.mem_cons_self
    rw [parseDigits, if_pos hc, ih _ _ (fun d hd => h d (List.mem_cons_of_mem _ hd)) (.inr rfl),
      Nat.ofDigitChars_cons]

/-- `int` of decimal digits. -/
theorem pyInt?_ofList (h : ∀ c ∈ cs, c.isDigit) (hne : cs ≠ []) :
    pyInt? (String.ofList cs) = some ((Nat.ofDigitChars 10 cs 0 : ℕ) : ℤ) := by
  have hspace : ∀ c ∈ cs, pyIsSpace c = false := fun c hc => not_isSpace_of_isDigit (h c hc)
  have hparse := parseDigits_of_all 0 false h (.inl hne)
  rw [pyInt?, String.toList_ofList, pyStrip_of_all hspace]
  cases cs with
  | nil => exact absurd rfl hne
  | cons c cs =>
    have hc := toNat_of_isDigit (h c List.mem_cons_self)
    -- a digit is not a sign
    have hsign : c ≠ '-' ∧ c ≠ '+' := by
      constructor <;> rintro rfl <;> simp at hc
    split
    · next heq => exact absurd (List.cons.inj heq).1 hsign.1
    · next heq => exact absurd (List.cons.inj heq).1 hsign.2
    · simp [hparse]

/-- `int(str(pid))` is the PID. -/
theorem pyInt?_toString (p : ℤ) : pyInt? (toString p) = some p := by
  have hdigits : ∀ n : ℕ, ∀ c ∈ Nat.toDigits 10 n, c.isDigit := fun n c hc =>
    Nat.isDigit_of_mem_toDigits (by decide) (by decide) hc
  rw [Int.toString_eq_repr, Int.repr_eq_if]
  split_ifs with hp
  · rw [Nat.repr_eq_ofList_toDigits, pyInt?_ofList (hdigits _) Nat.toDigits_ne_nil,
      Nat.ofDigitChars_ten_toDigits, Int.toNat_of_nonneg hp]
  · have hlist : ("-" ++ (-p).toNat.repr).toList = '-' :: Nat.toDigits 10 (-p).toNat := by
      rw [String.toList_append, Nat.toList_repr]
      rfl
    have hall : ∀ c ∈ '-' :: Nat.toDigits 10 (-p).toNat, pyIsSpace c = false := by
      intro c hc
      rcases List.mem_cons.mp hc with rfl | hc
      · decide
      · exact not_isSpace_of_isDigit (hdigits _ c hc)
    have hparse := parseDigits_of_all 0 false (hdigits (-p).toNat) (.inl Nat.toDigits_ne_nil)
    rw [Nat.ofDigitChars_ten_toDigits] at hparse
    rw [pyInt?, hlist, pyStrip_of_all hall]
    simp [hparse]
    omega

end

/-- `int(pid)`. -/
def PidArg.toInt? : PidArg → Option Pid
  | .pid p => some p
  | .str s => pyInt? s

instance : ToString PidArg where
  toString
    | .pid p => s!"{p}"
    | .str s => s

namespace WriteLock

/-- `WriteLock._rpc_lock`. -/
def rpcLock : Py Unit := do
  let w ← get
  if w.isFileActive then
    set { w with nested := w.nested + 1 }
    throw (.runtimeError
      "Attempt to modify control lock file while file lock is held by the same process")
  else
    set { w with isFileActive := true }

/-- `WriteLock._rpc_unlock`. -/
def rpcUnlock : Py Unit := do
  let w ← get
  if w.isFileActive then
    set { w with isFileActive := false }
  else
    throw (.runtimeError "Unlock failed, file is not active")

/-- `with WriteLock(...) as lock:`. -/
def withLock {α : Type} (body : Py α) : Py α := do
  rpcLock
  tryFinally body rpcUnlock

/-- `WriteLock.try_lock`. -/
def tryLock (name : LockName) (pid : Option PidArg) : Py (Option PidArg) := do
  match (← get).lockFile name with
  | some filePid => return some (.pid filePid)
  | none =>
    match pid with
    | none => return none
    | some arg =>
      match arg.toInt? with
      | none => throw (.valueError s!"invalid literal for int() with base 10: '{arg}'")
      | some p =>
        modify fun w => w.setLockFile name (some p)
        return some arg

/-- `WriteLock.unlock`. -/
def unlock (name : LockName) (pid : PidArg) : Py Unit := do
  match (← get).lockFile name with
  | none => throw (.runtimeError "Lock is not held by any PID")
  | some filePid =>
    if PidArg.pid filePid = pid then
      modify fun w => w.setLockFile name none
    else
      throw (.runtimeError s!"Lock is held by another PID: {filePid}")

end WriteLock

end Geopm
