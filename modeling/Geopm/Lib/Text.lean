import Mathlib

/-!
# Texts of lines, pieces and numbers

A text is a list of its bytes.

* `CInt` : the values of an `int`; `Text.decimal`, `Text.stoi` : an `int` in decimal digits, and
  what `std::stoi` makes of a text: it skips blanks, and ignores what follows the digits;
* `Text.stoi_decimal` : a number reads back;
* `Text.getlines`, `Text.getlines_append` : the lines that `std::getline` finds;
* `Text.split`, `Text.split_intercalate` : the pieces between separators.
-/

/-- The values of an `int`. -/
abbrev CInt : Type := {n : ℤ // -2 ^ 31 ≤ n ∧ n < 2 ^ 31}

instance : LE CInt := ⟨fun a b => a.1 ≤ b.1⟩

instance : DecidableLE CInt := fun a b => inferInstanceAs (Decidable (a.1 ≤ b.1))

namespace Text

open List

/-! ### Numbers -/

/-- `std::isspace`. -/
def isSpace (c : Char) : Bool :=
  c = ' ' || c = '\t' || c = '\n' || c = '\x0b' || c = '\x0c' || c = '\r'

/-- A number in decimal digits. -/
def decimal (n : ℤ) : List Char :=
  if n < 0 then '-' :: Nat.toDigits 10 n.natAbs else Nat.toDigits 10 n.natAbs

/-- The sign of a number, and the rest of the text. -/
def sign : List Char → ℤ × List Char
  | '-' :: text => (-1, text)
  | '+' :: text => (1, text)
  | text => (1, text)

/-- `std::stoi`; `none` when there are no digits or when the number is not an `int`. -/
def stoi (text : List Char) : Option CInt :=
  let signed := sign (text.dropWhile isSpace)
  let digits := signed.2.takeWhile Char.isDigit
  if digits = [] then none
  else
    let n := signed.1 * (Nat.ofDigitChars 10 digits 0 : ℕ)
    if h : -2 ^ 31 ≤ n ∧ n < 2 ^ 31 then some ⟨n, h⟩ else none

section Numbers

variable {n : ℤ} {c : Char}

theorem isDigit_of_mem_toDigits {n : ℕ} (h : c ∈ Nat.toDigits 10 n) : c.isDigit = true :=
  Nat.isDigit_of_mem_toDigits (by decide) (by decide) h

/-- What a number is written with. -/
theorem mem_decimal (h : c ∈ decimal n) : c = '-' ∨ c.isDigit = true := by
  unfold decimal at h
  split_ifs at h
  · obtain rfl | h := mem_cons.mp h
    · exact .inl rfl
    · exact .inr (isDigit_of_mem_toDigits h)
  · exact .inr (isDigit_of_mem_toDigits h)

theorem decimal_ne_nil (n : ℤ) : decimal n ≠ [] := by
  unfold decimal
  split_ifs
  · exact cons_ne_nil _ _
  · exact Nat.toDigits_ne_nil

/-- A character that is neither a digit nor a minus sign does not occur in a number. -/
theorem not_mem_decimal (hminus : c ≠ '-') (hdigit : c.isDigit = false) : c ∉ decimal n := by
  intro h
  obtain h | h := mem_decimal h
  · exact hminus h
  · rw [hdigit] at h
    cases h

theorem isSpace_of_isDigit (h : c.isDigit = true) : isSpace c = false := by
  unfold isSpace
  have hne : ∀ d : Char, d.isDigit = false → c ≠ d := by
    rintro d hd rfl
    rw [hd] at h
    cases h
  simp [hne ' ' rfl, hne '\t' rfl, hne '\n' rfl, hne '\x0b' rfl, hne '\x0c' rfl, hne '\r' rfl]

/-- The blanks that are skipped before a number are none. -/
theorem dropWhile_decimal (n : ℤ) : (decimal n).dropWhile isSpace = decimal n := by
  cases hdecimal : decimal n with
  | nil => rfl
  | cons c cs =>
    have hc : c ∈ decimal n := hdecimal ▸ mem_cons_self
    have hspace : isSpace c = false := by
      obtain rfl | hdigit := mem_decimal hc
      · rfl
      · exact isSpace_of_isDigit hdigit
    rw [dropWhile_cons, hspace]
    rfl

/-- The sign and the digits of a number. -/
theorem sign_decimal (n : ℤ) :
    sign (decimal n) = (if n < 0 then -1 else 1, Nat.toDigits 10 n.natAbs) := by
  unfold decimal
  split_ifs with hn
  · rfl
  · cases hdigits : Nat.toDigits 10 n.natAbs with
    | nil => exact absurd hdigits Nat.toDigits_ne_nil
    | cons c cs =>
      have hc : c.isDigit = true := isDigit_of_mem_toDigits (hdigits ▸ mem_cons_self)
      unfold sign
      split
      · next heq =>
        rw [(List.cons.inj heq).1] at hc
        cases hc
      · next heq =>
        rw [(List.cons.inj heq).1] at hc
        cases hc
      · rfl

/-- **A number reads back.** -/
theorem stoi_decimal (n : CInt) : stoi (decimal n) = some n := by
  have hall : (Nat.toDigits 10 n.1.natAbs).takeWhile Char.isDigit = Nat.toDigits 10 n.1.natAbs :=
    takeWhile_eq_self_iff.mpr fun c hc => isDigit_of_mem_toDigits hc
  have hvalue : (if n.1 < 0 then -1 else 1 : ℤ) * (n.1.natAbs : ℕ) = n.1 := by
    split_ifs <;> omega
  unfold stoi
  dsimp only
  rw [dropWhile_decimal, sign_decimal, hall, if_neg Nat.toDigits_ne_nil,
    Nat.ofDigitChars_ten_toDigits, hvalue, dif_pos n.2]

/-- What follows a number and is not a digit is ignored. -/
theorem stoi_decimal_append (n : CInt) (hc : c.isDigit = false) (rest : List Char) :
    stoi (decimal n ++ c :: rest) = some n := by
  have hdrop : (decimal n ++ c :: rest).dropWhile isSpace = decimal n ++ c :: rest := by
    have h := dropWhile_decimal n
    cases hdecimal : decimal n with
    | nil => exact absurd hdecimal (decimal_ne_nil n)
    | cons d ds =>
      rw [hdecimal] at h
      have hd : isSpace d = false := by
        by_contra hd
        rw [Bool.not_eq_false] at hd
        rw [dropWhile_cons, if_pos hd] at h
        have hlength := congrArg List.length h
        have hle := (dropWhile_sublist isSpace (l := ds)).length_le
        rw [length_cons] at hlength
        omega
      rw [cons_append, dropWhile_cons, hd]
      rfl
  have hsign : sign (decimal n ++ c :: rest) =
      (if n.1 < 0 then -1 else 1, Nat.toDigits 10 n.1.natAbs ++ c :: rest) := by
    unfold decimal
    split_ifs with hn
    · rfl
    · cases hdigits : Nat.toDigits 10 n.1.natAbs with
      | nil => exact absurd hdigits Nat.toDigits_ne_nil
      | cons d ds =>
        have hd : d.isDigit = true := isDigit_of_mem_toDigits (hdigits ▸ mem_cons_self)
        unfold sign
        split
        · next heq =>
          rw [(List.cons.inj heq).1] at hd
          cases hd
        · next heq =>
          rw [(List.cons.inj heq).1] at hd
          cases hd
        · rfl
  have hdigits : (Nat.toDigits 10 n.1.natAbs ++ c :: rest).takeWhile Char.isDigit =
      Nat.toDigits 10 n.1.natAbs := by
    rw [takeWhile_append_of_pos fun d hd => isDigit_of_mem_toDigits hd]
    simp [hc]
  have hvalue : (if n.1 < 0 then -1 else 1 : ℤ) * (n.1.natAbs : ℕ) = n.1 := by
    split_ifs <;> omega
  unfold stoi
  dsimp only
  rw [hdrop, hsign, hdigits, if_neg Nat.toDigits_ne_nil, Nat.ofDigitChars_ten_toDigits, hvalue,
    dif_pos n.2]

end Numbers

/-! ### Pieces of a text -/

section Pieces

variable {sep c : Char} {piece text : List Char}

/-- The separator is in none of the pieces, and they have no other characters than the text. -/
theorem mem_splitOn (h : piece ∈ text.splitOn sep) : sep ∉ piece ∧ ∀ c ∈ piece, c ∈ text := by
  induction text generalizing piece with
  | nil =>
    rw [splitOn_nil, mem_singleton] at h
    subst h
    exact ⟨not_mem_nil, fun c hc => hc⟩
  | cons x rest ih =>
    rw [splitOn_cons_eq_if_modifyHead] at h
    split_ifs at h with hx
    · obtain rfl | h := mem_cons.mp h
      · exact ⟨not_mem_nil, fun c hc => absurd hc not_mem_nil⟩
      · exact ⟨(ih h).1, fun c hc => mem_cons_of_mem x ((ih h).2 c hc)⟩
    · cases hpieces : rest.splitOn sep with
      | nil => exact absurd hpieces (splitOn_ne_nil _ _)
      | cons first others =>
        rw [hpieces, modifyHead_cons] at h
        obtain rfl | h := mem_cons.mp h
        · obtain ⟨hsep, hmem⟩ := ih (hpieces ▸ mem_cons_self)
          refine ⟨?_, ?_⟩
          · rintro (_ | ⟨_, h⟩)
            · simp at hx
            · exact hsep h
          · rintro c (_ | ⟨_, hc⟩)
            · exact mem_cons_self
            · exact mem_cons_of_mem x (hmem c hc)
        · obtain ⟨hsep, hmem⟩ := ih (hpieces ▸ mem_cons_of_mem first h)
          exact ⟨hsep, fun c hc => mem_cons_of_mem x (hmem c hc)⟩

/-- A text without the separator before another one is part of the first piece. -/
theorem splitOn_append_of_not_mem (h : sep ∉ piece) (text : List Char) :
    (piece ++ text).splitOn sep = (text.splitOn sep).modifyHead (piece ++ ·) := by
  induction piece with
  | nil =>
    cases hpieces : text.splitOn sep with
    | nil => exact absurd hpieces (splitOn_ne_nil _ _)
    | cons first others => simp [hpieces]
  | cons c piece ih =>
    rw [mem_cons, not_or] at h
    rw [cons_append, splitOn_cons_eq_if_modifyHead, ih h.2, if_neg (by simp [Ne.symm h.1]),
      modifyHead_modifyHead]
    rfl

/-- The pieces after the first separator of the end of a text are pieces after that of the text. -/
theorem tail_splitOn_drop_subset (n : ℕ) (text : List Char) :
    ((text.drop n).splitOn sep).tail ⊆ (text.splitOn sep).tail := by
  induction text generalizing n with
  | nil => rw [drop_nil]; exact List.Subset.refl _
  | cons c text ih =>
    cases n with
    | zero => exact List.Subset.refl _
    | succ n =>
      intro part hpart
      have hrest := ih n hpart
      rw [splitOn_cons_eq_if_modifyHead]
      split_ifs
      · exact mem_of_mem_tail hrest
      · rwa [tail_modifyHead]

/-- A text has one piece if it does not contain the separator. -/
theorem tail_splitOn_eq_nil_iff : (text.splitOn sep).tail = [] ↔ sep ∉ text := by
  induction text with
  | nil => simp
  | cons c text ih =>
    rw [splitOn_cons_eq_if_modifyHead, mem_cons, not_or, ← ih]
    split_ifs with hc
    · simp [splitOn_ne_nil, eq_comm.mp (beq_iff_eq.mp hc)]
    · rw [tail_modifyHead]
      simp only [beq_iff_eq] at hc
      exact (and_iff_right (Ne.symm hc)).symm

end Pieces

/-! ### Lines -/

/-- The lines that `std::getline` finds; the last one need not be terminated. -/
def getlines (text : List Char) : List (List Char) :=
  let lines := text.splitOn '\n'
  if lines.getLast? = some [] then lines.dropLast else lines

/-- A line that is terminated. -/
theorem getlines_cons {line : List Char} (h : '\n' ∉ line) (text : List Char) :
    getlines (line ++ '\n' :: text) = line :: getlines text := by
  unfold getlines
  dsimp only
  rw [splitOn_append_cons_self_of_not_mem h]
  cases hlines : text.splitOn '\n' with
  | nil => exact absurd hlines (splitOn_ne_nil _ _)
  | cons first rest =>
    rw [getLast?_cons_cons, dropLast_cons_cons]
    split_ifs <;> rfl

theorem not_mem_of_mem_getlines {line text : List Char} (h : line ∈ getlines text) :
    '\n' ∉ line := by
  unfold getlines at h
  dsimp only at h
  split_ifs at h
  · exact (mem_splitOn (dropLast_subset _ h)).1
  · exact (mem_splitOn h).1

/-- Every line is terminated. -/
def Terminated (text : List Char) : Prop := text = [] ∨ text.getLast? = some '\n'

/-- A text whose lines are terminated has no lines, or a first one and a rest that is such a
text. -/
theorem Terminated.cases {text : List Char} (h : Terminated text) :
    text = [] ∨ ∃ line rest, '\n' ∉ line ∧ text = line ++ '\n' :: rest ∧ Terminated rest := by
  obtain rfl | h := h
  · exact .inl rfl
  · obtain ⟨line, rest, rfl, hline⟩ := eq_append_cons_of_mem (mem_of_getLast? h)
    refine .inr ⟨line, rest, hline, rfl, ?_⟩
    cases rest with
    | nil => exact .inl rfl
    | cons c rest =>
      refine .inr ?_
      simpa [getLast?_append, getLast?_cons_cons] using h

/-- The lines of two texts, when those of the first are terminated. -/
theorem getlines_append {text : List Char} (h : Terminated text) (text' : List Char) :
    getlines (text ++ text') = getlines text ++ getlines text' := by
  induction hlength : text.length using Nat.strongRecOn generalizing text with
  | ind n ih =>
    obtain rfl | ⟨line, rest, hline, rfl, hrest⟩ := h.cases
    · rfl
    · have hlt : rest.length < n := by
        rw [← hlength, length_append, length_cons]
        omega
      rw [append_assoc, cons_append, getlines_cons hline, getlines_cons hline,
        ih _ hlt hrest rfl, cons_append]

/-- The text of lines. -/
def unlines (lines : List (List Char)) : List Char := lines.flatMap fun line => line ++ ['\n']

theorem getlines_unlines {lines : List (List Char)} (h : ∀ line ∈ lines, '\n' ∉ line) :
    getlines (unlines lines) = lines := by
  induction lines with
  | nil => rfl
  | cons line lines ih =>
    have hcons : unlines (line :: lines) = line ++ '\n' :: unlines lines := by
      simp [unlines]
    rw [hcons, getlines_cons (h line mem_cons_self),
      ih fun l hl => h l (mem_cons_of_mem _ hl)]

/-! ### Pieces -/

/-- `string_split` at one character: an empty text has no pieces. -/
def split (sep : Char) (text : List Char) : List (List Char) :=
  if text = [] then [] else text.splitOn sep

/-- The pieces of a joined text, none of which contains the separator. -/
theorem split_intercalate {sep : Char} {pieces : List (List Char)}
    (h : ∀ piece ∈ pieces, sep ∉ piece) (hne : pieces ≠ []) (htext : pieces ≠ [[]]) :
    split sep ([sep].intercalate pieces) = pieces := by
  have hsplit := splitOn_intercalate sep h hne
  unfold split
  rw [hsplit, if_neg]
  intro hnil
  rw [hnil] at hsplit
  exact htext hsplit.symm

/-- The pieces of a text joined again. -/
theorem intercalate_split (sep : Char) (text : List Char) :
    [sep].intercalate (split sep text) = text := by
  unfold split
  split_ifs with h
  · exact h.symm
  · exact intercalate_splitOn sep

theorem mem_split {sep : Char} {piece text : List Char} (h : piece ∈ split sep text) :
    sep ∉ piece ∧ ∀ c ∈ piece, c ∈ text := by
  unfold split at h
  split_ifs at h
  · exact absurd h not_mem_nil
  · exact mem_splitOn h

end Text
