import Geopm.Lib.Text

/-!
# Hexadecimal numbers in texts

* `hexNumber` : the number of hexadecimal digits;
* `scanHex` : what `sscanf` with `%x` reads from a text into an unsigned number of 32 bits;
* `stoull` : what `std::stoull` makes of a text;
* `IsGroup`, `groupValue` : texts of at most eight digits, with blanks around them;
* `scanHex_append` : a comma ends a number;
* `scanHex_of_isGroup`, `stoull_of_isGroup` : a group is read as its number.
-/

namespace HexText

open Text (isSpace sign)
open List

/-- The digits of a hexadecimal number. -/
def isHex (c : Char) : Bool :=
  c.isDigit || ('a' ≤ c && c ≤ 'f') || ('A' ≤ c && c ≤ 'F')

def hexValue (c : Char) : ℕ :=
  if c.isDigit then c.toNat - '0'.toNat
  else if 'a' ≤ c then c.toNat - 'a'.toNat + 10
  else c.toNat - 'A'.toNat + 10

/-- The number of digits, the most significant one first. -/
def hexNumber (digits : List Char) : ℕ := digits.foldl (fun v c => 16 * v + hexValue c) 0

/-- The digits at the start of a text, after `0x` if it is there. -/
def hexDigits : List Char → List Char
  | '0' :: x :: text =>
    if x = 'x' ∨ x = 'X' then '0' :: text.takeWhile isHex else ('0' :: x :: text).takeWhile isHex
  | text => text.takeWhile isHex

/-- `sscanf(text, "%x", &number)`: a number beyond 64 bits becomes the greatest one, and of a number
beyond 32 bits the lowest ones are stored. -/
def scanHex (text : List Char) : Option ℕ :=
  let signed := sign (text.dropWhile isSpace)
  let digits := hexDigits signed.2
  if digits = [] then none
  else if 2 ^ 64 ≤ hexNumber digits then some (2 ^ 32 - 1)
  else if signed.1 < 0 then some ((2 ^ 64 - hexNumber digits) % 2 ^ 32)
  else some (hexNumber digits % 2 ^ 32)

/-- `std::stoull(text, nullptr, 16)`; `none` when there are no digits or when the number has more than
64 bits. -/
def stoull (text : List Char) : Option ℕ :=
  let signed := sign (text.dropWhile isSpace)
  let digits := hexDigits signed.2
  if digits = [] ∨ 2 ^ 64 ≤ hexNumber digits then none
  else if signed.1 < 0 then some ((2 ^ 64 - hexNumber digits) % 2 ^ 64)
  else some (hexNumber digits)

/-- The digits of a group. -/
def groupDigits (text : List Char) : List Char := (text.dropWhile isSpace).takeWhile isHex

/-- One to eight digits, with blanks around them. -/
def IsGroup (text : List Char) : Prop :=
  groupDigits text ≠ [] ∧ (groupDigits text).length ≤ 8 ∧
    ∀ c ∈ (text.dropWhile isSpace).dropWhile isHex, isSpace c = true

instance (text : List Char) : Decidable (IsGroup text) :=
  have : Decidable (∀ c ∈ (text.dropWhile isSpace).dropWhile isHex, isSpace c = true) :=
    List.decidableBAll _ _
  inferInstanceAs (Decidable (_ ∧ _ ∧ _))

def groupValue (text : List Char) : ℕ := hexNumber (groupDigits text)

variable {c : Char} {text rest : List Char}

/-! ### Where a number ends -/

theorem takeWhile_append_of_not (text : List Char) {p : Char → Bool} (hc : p c = false) :
    (text ++ c :: rest).takeWhile p = text.takeWhile p := by
  induction text with
  | nil => simp [hc]
  | cons d text ih => simp [takeWhile_cons, ih]

theorem dropWhile_append_of_not {p : Char → Bool} (hc : p c = false) :
    (text ++ c :: rest).dropWhile p = text.dropWhile p ++ c :: rest := by
  induction text with
  | nil => simp [hc]
  | cons d text ih =>
    by_cases hd : p d = true
    · simp [hd, ih]
    · simp [hd]

/-- A comma ends the digits. -/
theorem hexDigits_append : hexDigits (text ++ ',' :: rest) = hexDigits text := by
  have hcomma : isHex ',' = false := by decide
  match text with
  | [] => rfl
  | [d] =>
    by_cases hd : d = '0'
    · subst hd
      rfl
    · have hleft : hexDigits (d :: ',' :: rest) = (d :: ',' :: rest).takeWhile isHex := by
        rw [hexDigits]
        rintro x text' h
        exact absurd (List.cons.inj h).1 hd
      have hright : hexDigits [d] = [d].takeWhile isHex := by
        rw [hexDigits]
        rintro x text' h
        cases h
      exact hleft.trans ((takeWhile_append_of_not [d] hcomma).trans hright.symm)
  | d :: x :: text =>
    by_cases hd : d = '0'
    · subst hd
      rw [cons_append, cons_append, hexDigits, hexDigits, takeWhile_append_of_not _ hcomma]
      congr 1
      exact takeWhile_append_of_not ('0' :: x :: text) hcomma
    · have hplain : ∀ l, hexDigits (d :: x :: l) = (d :: x :: l).takeWhile isHex := by
        intro l
        rw [hexDigits]
        rintro y text' h
        exact absurd (List.cons.inj h).1 hd
      rw [cons_append, cons_append, hplain, hplain]
      exact takeWhile_append_of_not (d :: x :: text) hcomma

/-- The sign of a number does not depend on what follows a comma. -/
theorem sign_append :
    sign (text ++ ',' :: rest) = ((sign text).1, (sign text).2 ++ ',' :: rest) := by
  cases text with
  | nil => rfl
  | cons d text =>
    rw [cons_append]
    by_cases hminus : d = '-'
    · subst hminus
      rfl
    · by_cases hplus : d = '+'
      · subst hplus
        rfl
      · have hplain : ∀ l, sign (d :: l) = (1, d :: l) := by
          intro l
          rw [sign]
          · rintro text' h
            exact hminus (List.cons.inj h).1
          · rintro text' h
            exact hplus (List.cons.inj h).1
        rw [hplain, hplain, cons_append]

/-- **A comma ends a number.** -/
theorem scanHex_append : scanHex (text ++ ',' :: rest) = scanHex text := by
  have hcomma : isSpace ',' = false := by decide
  rw [scanHex, scanHex]
  simp only [dropWhile_append_of_not hcomma, sign_append, hexDigits_append]

/-! ### Groups -/

theorem hexValue_lt (h : isHex c = true) : hexValue c < 16 := by
  simp only [isHex, Bool.or_eq_true, Bool.and_eq_true, decide_eq_true_eq, Char.isDigit,
    Char.le_def, UInt32.le_iff_toNat_le] at h
  simp only [hexValue, Char.isDigit, Bool.and_eq_true, decide_eq_true_eq, Char.le_def,
    UInt32.le_iff_toNat_le, Char.toNat]
  simp only [show '0'.val.toNat = 48 from rfl, show '9'.val.toNat = 57 from rfl,
    show 'a'.val.toNat = 97 from rfl, show 'f'.val.toNat = 102 from rfl,
    show 'A'.val.toNat = 65 from rfl, show 'F'.val.toNat = 70 from rfl] at *
  split_ifs <;> omega

theorem hexNumber_concat (digits : List Char) (c : Char) :
    hexNumber (digits ++ [c]) = 16 * hexNumber digits + hexValue c := by
  simp [hexNumber]

/-- A number is less than the power of its length. -/
theorem hexNumber_lt {digits : List Char} (h : ∀ c ∈ digits, isHex c = true) :
    hexNumber digits < 16 ^ digits.length := by
  induction digits using List.reverseRecOn with
  | nil => decide
  | append_singleton digits c ih =>
    have hlt := ih fun d hd => h d (mem_append_left _ hd)
    have hc := hexValue_lt (h c (mem_append_right _ mem_cons_self))
    rw [hexNumber_concat, length_append, length_singleton, pow_succ]
    omega

/-- A group is less than a word. -/
theorem groupValue_lt (h : IsGroup text) : groupValue text < 2 ^ 32 :=
  calc groupValue text < 16 ^ (groupDigits text).length :=
        hexNumber_lt fun _ => mem_takeWhile_imp
    _ ≤ 16 ^ 8 := Nat.pow_le_pow_right (by decide) h.2.1
    _ = 2 ^ 32 := by decide

/-- There is no comma in a group. -/
theorem not_mem_of_isGroup (h : IsGroup text) : ',' ∉ text := by
  intro hmem
  rw [← text.takeWhile_append_dropWhile (p := isSpace), mem_append] at hmem
  obtain hmem | hmem := hmem
  · exact absurd (mem_takeWhile_imp hmem) (by decide)
  · rw [← (text.dropWhile isSpace).takeWhile_append_dropWhile (p := isHex), mem_append] at hmem
    obtain hmem | hmem := hmem
    · exact absurd (mem_takeWhile_imp hmem) (by decide)
    · exact absurd (h.2.2 _ hmem) (by decide)

/-- A text that starts with a digit has no sign. -/
theorem sign_of_isHex (h : isHex c = true) : sign (c :: text) = (1, c :: text) := by
  rw [sign]
  · rintro text' heq
    rw [(List.cons.inj heq).1] at h
    exact absurd h (by decide)
  · rintro text' heq
    rw [(List.cons.inj heq).1] at h
    exact absurd h (by decide)

/-- A group has no sign, and its digits are read. -/
theorem hexDigits_of_isGroup (h : IsGroup text) :
    sign (text.dropWhile isSpace) = (1, text.dropWhile isSpace) ∧
      hexDigits (text.dropWhile isSpace) = groupDigits text := by
  obtain ⟨hne, -, hrest⟩ := h
  rw [groupDigits] at hne ⊢
  generalize text.dropWhile isSpace = start at *
  cases start with
  | nil => exact absurd rfl hne
  | cons d start =>
    have hd : isHex d = true := by
      by_contra hd
      rw [takeWhile_cons_of_neg hd] at hne
      exact hne rfl
    refine ⟨sign_of_isHex hd, ?_⟩
    -- after `0x` there are other characters than blanks
    cases start with
    | nil =>
      rw [hexDigits]
      rintro x text' heq
      cases heq
    | cons x start =>
      by_cases hzero : d = '0'
      · subst hzero
        rw [hexDigits, if_neg]
        intro hx
        have hhex : isHex x = false := by obtain rfl | rfl := hx <;> decide
        have hblank : isSpace x = true := hrest x (by simp [hd, hhex])
        obtain rfl | rfl := hx <;> exact absurd hblank (by decide)
      · rw [hexDigits]
        rintro y text' heq
        exact absurd (List.cons.inj heq).1 hzero

/-- **A group is read as its number.** -/
theorem scanHex_of_isGroup (h : IsGroup text) : scanHex text = some (groupValue text) := by
  have hlt := groupValue_lt h
  obtain ⟨hsign, hdigits⟩ := hexDigits_of_isGroup h
  have hpositive : ¬ (1 : ℤ) < 0 := by decide
  rw [groupValue] at hlt ⊢
  rw [scanHex, hsign, hdigits, if_neg h.1, if_neg (by omega), if_neg hpositive,
    Nat.mod_eq_of_lt hlt]

theorem stoull_of_isGroup (h : IsGroup text) : stoull text = some (groupValue text) := by
  have hlt := groupValue_lt h
  obtain ⟨hsign, hdigits⟩ := hexDigits_of_isGroup h
  have hpositive : ¬ (1 : ℤ) < 0 := by decide
  rw [groupValue] at hlt ⊢
  rw [stoull, hsign, hdigits, if_neg (not_or.mpr ⟨h.1, by omega⟩), if_neg hpositive]

end HexText
