import Geopm.Lib.LastOf
import Geopm.Lib.Mask
import Geopm.Lib.SortedMap
import Geopm.Pio.SaveControl

/-!
# The allowlist of the MSRs

The MSRs are described by JSON documents.  `MSRIOGroup` makes controls of their writable fields in
one walk over the documents; another walk collects the bits of the writable fields in an allowlist,
which the driver checks writes against.

* `parseJsonMsrs`, `parseJsonMsrsAllowlist` : the two walks, where a shift may be undefined;
* `Entry`, `Field` : what the documents say about an MSR;
* `parseAll_follows`, `allowAll_follows` : the walks as functions of the entries;
* `readLine_allowlistLine` : a line of the allowlist reads back;
* `CoversExactly` : the allowlist has the bits of the controls and no others;
* `coversExactly_iff` : it does just when no shift reaches 64, and the last entry of each offset has
  the bits of all its controls as writable ones, and no others;
* `lost_update` : two entries with one offset.
-/

namespace Geopm.Pio.Allowlist

open List hiding set

/-! ### Undefined shifts -/

/-- How a walk ends early: it raises, or it shifts by an amount that is not a bit of a word. -/
inductive Fault where
  | raised (e : Exception)
  | undefined

/-- A walk. -/
abbrev Walk := Except Fault

/-- Raise an exception. -/
def raise {α : Type} (e : Exception) : Walk α := .error (.raised e)

/-- Return or raise what another function does. -/
def lift {α : Type} : Except Exception α → Walk α
  | .ok a => .ok a
  | .error e => raise e

/-- `x << n`. -/
def shl (x : BitVec 64) (n : ℤ) : Walk (BitVec 64) :=
  if 0 ≤ n ∧ n < 64 then .ok (x <<< n.toNat) else .error .undefined

/-- `((1ULL << (end_bit - begin_bit + 1)) - 1) << begin_bit`. -/
def fieldMask (beginBit endBit : ℤ) : Walk (BitVec 64) := do
  let x ← shl 1#64 (endBit - beginBit + 1)
  shl (x - 1#64) beginBit

/-! ### Checks of the documents -/

/-- `Json::Type`. -/
inductive JsonType where
  | nul
  | number
  | bool
  | string
  | array
  | object
deriving DecidableEq

/-- `Json::type`. -/
def typeOf : Json → JsonType
  | .null => .nul
  | .bool _ => .bool
  | .number _ => .number
  | .string _ => .string
  | .array _ => .array
  | .object _ => .object

def objectItems : Json → List (String × Json)
  | .object fields => fields
  | _ => []

def boolValue : Json → Bool
  | .bool value => value
  | _ => false

/-- `(int)` of a double; one out of range gives the smallest integer. -/
def toInt : Double → ℤ
  | .num x =>
    if -2 ^ 31 ≤ x.num.tdiv x.den ∧ x.num.tdiv x.den < 2 ^ 31 then x.num.tdiv x.den else -2 ^ 31
  | .negZero => 0
  | _ => -2 ^ 31

/-- Whether a character is a hexadecimal digit. -/
def isHexDigit (c : Char) : Bool := c.isDigit || (c.toLower.val ≥ 97 && c.toLower.val ≤ 102)

/-- A number followed by one more hexadecimal digit. -/
def addHexDigit (n : ℕ) (c : Char) : ℕ :=
  16 * n + if c.isDigit then c.toNat - 48 else c.toLower.toNat - 87

/-- The value of the hexadecimal digits that a text begins with. -/
def hexValue (text : List Char) : ℕ := (text.takeWhile isHexDigit).foldl addHexDigit 0

/-- `std::stoull` of a text that begins with `0x`. -/
def stoull (text : String) : Walk (BitVec 64) :=
  let n := hexValue (text.toList.drop 2)
  if n < 2 ^ 64 then .ok (BitVec.ofNat 64 n) else raise ⟨"stoull", [], .runtime⟩

/-- What the walks ask other parts of the library: the JSON parser, whether the turbo ratio limits
are writable, the names of domains, aggregations, units and behaviors, the CPUs of all domains of a
type, the write mask of the driver, and the widths that CPUID says. -/
structure Platform where
  parse : String → Except String Json
  isTrlWritableInAllDomains : Json → Except Exception Bool
  domainNameToType : String → Except Exception ℤ
  isAggregation : String → Bool
  stringToUnits : String → Except Exception ℤ
  stringToBehavior : String → Except Exception ℤ
  cpus : ℤ → Except Exception (List ℕ)
  systemWriteMask : BitVec 64 → Except Exception (BitVec 64)
  rmidBitWidth : Option ℤ
  pmcBitWidth : ℤ

/-- `json_checker`. -/
structure JsonChecker where
  jsonType : JsonType
  isValid : Json → Walk Bool
  message : String

/-- Whether a value has its type and is valid. -/
def JsonChecker.accepts (c : JsonChecker) (obj : Json) : Walk Bool :=
  if typeOf obj = c.jsonType then c.isValid obj else .ok false

/-- Check a value. -/
def JsonChecker.check (c : JsonChecker) (key locMessage : String) (obj : Json) : Walk Unit := do
  let isValid ← c.accepts obj
  if !isValid then
    raise ⟨"MSRIOGroup::check_expected_key_values(): \"" ++ key ++ "\" " ++ c.message ++ " " ++
      locMessage, [], .invalid⟩

def checkExpectedKeyValues (root : Json) (required optional : List (String × JsonChecker))
    (locMessage : String) : Walk Unit := do
  let items := objectItems root
  items.forM fun obj =>
    if (required.lookup obj.1).isNone && (optional.lookup obj.1).isNone then
      raise ⟨"MSRIOGroup::check_expected_key_values(): unexpected key \"" ++ obj.1 ++ "\" found " ++
        locMessage, [], .invalid⟩
    else .ok ⟨⟩
  required.forM fun c => match items.lookup c.1 with
    | none => raise ⟨"MSRIOGroup::check_expected_key_values(): \"" ++ c.1 ++
        "\" key is required " ++ locMessage, [], .invalid⟩
    | some obj => c.2.check c.1 locMessage obj
  optional.forM fun c => match items.lookup c.1 with
    | none => .ok ⟨⟩
    | some obj => c.2.check c.1 locMessage obj

def jsonCheckNullFunc (_ : Json) : Walk Bool := .ok true

def jsonCheckIsValidOffset (obj : Json) : Walk Bool :=
  if "0x".toList.isPrefixOf obj.stringValue.toList then do
    let offset ← stoull obj.stringValue
    .ok (offset != 0#64)
  else .ok false

def jsonCheckIsInteger (num : Json) : Walk Bool :=
  .ok ((Double.num (toInt num.numberValue)).eq num.numberValue)

def checkTopLevel (root : Json) : Walk Unit :=
  checkExpectedKeyValues root [("msrs", ⟨.object, jsonCheckNullFunc, "must be an object"⟩)] []
    "at top level"

variable (p : Platform)

def jsonCheckIsValidDomain (domain : Json) : Walk Bool :=
  .ok (p.domainNameToType domain.stringValue).toOption.isSome

def checkMsrRoot (msrRoot : Json) (msrName : String) : Walk Unit := do
  if typeOf msrRoot ≠ .object then
    raise ⟨"MSRIOGroup::check_msr_root(): data for msr \"" ++ msrName ++ "\" must be an object", [],
      .invalid⟩
  checkExpectedKeyValues msrRoot
    [("domain", ⟨.string, jsonCheckIsValidDomain p, "must be a valid domain string"⟩),
      ("fields", ⟨.object, jsonCheckNullFunc, "must be an object"⟩),
      ("offset", ⟨.string, jsonCheckIsValidOffset, "must be a hex string and non-zero"⟩)] []
    ("in msr \"" ++ msrName ++ "\"")

def checkMsrField (msrField : Json) (msrName fieldName : String) : Walk Unit := do
  if typeOf msrField ≠ .object then
    raise ⟨"MSRIOGroup::check_msr_field(): \"" ++ fieldName ++ "\" field within msr \"" ++
      msrName ++ "\" must be an object", [], .invalid⟩
  checkExpectedKeyValues msrField
    [("aggregation", ⟨.string, fun obj => .ok (p.isAggregation obj.stringValue),
        "must be a valid aggregation function name"⟩),
      ("begin_bit", ⟨.number, jsonCheckIsInteger, "must be an integer"⟩),
      ("behavior", ⟨.string, jsonCheckNullFunc, "must be a valid behavior string"⟩),
      ("end_bit", ⟨.number, jsonCheckIsInteger, "must be an integer"⟩),
      ("function", ⟨.string, jsonCheckNullFunc, "must be a valid function string"⟩),
      ("scalar", ⟨.number, jsonCheckNullFunc, "must be a number"⟩),
      ("units", ⟨.string, jsonCheckNullFunc, "must be a string"⟩),
      ("writeable", ⟨.bool, jsonCheckNullFunc, "must be a bool"⟩)]
    [("description", ⟨.string, jsonCheckNullFunc, "must be a string"⟩)]
    ("in \"" ++ msrName ++ ":" ++ fieldName ++ "\"")

/-- What both walks do first with a document. -/
def openDocument (func str : String) : Walk Json := do
  let root ← match p.parse str with
    | .ok root => .ok root
    | .error err => raise ⟨"MSRIOGroup::" ++ func ++ "(): detected a malformed json string: " ++
        err, [], .invalid⟩
  if typeOf root ≠ .object then
    raise ⟨"MSRIOGroup::" ++ func ++ "(): detected a malformed json string: ", [], .invalid⟩
  checkTopLevel root
  .ok (Json.get (objectItems root) "msrs")

/-! ### The controls -/

/-- `MSR::m_function_e`. -/
inductive MsrFunction where
  | scale
  | logHalf
  | sevenBitFloat
  | overflow
  | logic
deriving DecidableEq

def stringToFunction : String → Walk MsrFunction
  | "scale" => .ok .scale
  | "log_half" => .ok .logHalf
  | "7_bit_float" => .ok .sevenBitFloat
  | "overflow" => .ok .overflow
  | "logic" => .ok .logic
  | _ => raise ⟨"MSR::string_to_function(): invalid function string", [], .invalid⟩

/-- `MSRFieldControl::MSRFieldControl`, with the mask that it computes. -/
def msrFieldControl (offset : BitVec 64) (beginBit endBit : ℤ) (function : MsrFunction) :
    Walk (BitVec 64) := do
  let mask ← fieldMask beginBit endBit
  if function = .overflow then
    raise ⟨"MSRFieldControl: unsupported encode function.", [], .invalid⟩
  if beginBit > endBit then
    raise ⟨"MSRFieldControl: begin bit must be <= end bit", [], .invalid⟩
  let offsetMask ← lift (p.systemWriteMask offset)
  if mask &&& offsetMask ≠ mask then
    raise ⟨"MSRFieldControl: Offset 0x% has an incompatible write mask.  Bit field expected: " ++
      "0x% Whole MSR actual: 0x%", [offset.toNat, mask.toNat, offsetMask.toNat], .invalid⟩
  .ok mask

/-- An element of `m_control_available`, with the masks of its `MSRFieldControl`s. -/
structure Added where
  name : String
  offset : BitVec 64
  beginBit : ℤ
  endBit : ℤ
  masks : List (BitVec 64)

/-- `add_msr_field_control`, which drops a control that cannot be made. -/
def addMsrFieldControl (added : List Added) (name : String) (cpus : List ℕ) (offset : BitVec 64)
    (beginBit endBit : ℤ) (function : MsrFunction) : Walk (List Added) :=
  match cpus.mapM fun _ => msrFieldControl p offset beginBit endBit function with
  | .ok masks => .ok (added ++ [⟨name, offset, beginBit, endBit, masks⟩])
  | .error (.raised _) => .ok added
  | .error .undefined => .error .undefined

/-- The fields that are writable when the turbo ratio limits are. -/
def isTrl (isTrlWritable : Bool) (msrFieldName : String) : Bool :=
  isTrlWritable && "TURBO_RATIO_LIMIT:MAX_RATIO_LIMIT_".toList.isPrefixOf msrFieldName.toList

/-- The last bit of a field, which CPUID decides for the performance counters. -/
def lastBit (msrFieldName : String) (beginBit endBit : ℤ) : ℤ :=
  if "IA32_PMC".toList.isPrefixOf msrFieldName.toList &&
      ":PERFCTR".toList.isSuffixOf msrFieldName.toList && decide (0 < p.pmcBitWidth) then
    beginBit + p.pmcBitWidth - 1
  else endBit

/-- The check of the RMID fields against CPUID, if it has RDT. -/
def checkRmid (msrFieldName : String) (numBit : ℤ) : Walk Unit :=
  match p.rmidBitWidth with
  | some width =>
    if (msrFieldName = "QM_EVTSEL:RMID" ∨ msrFieldName = "PQR_ASSOC:RMID") ∧ width > numBit then
      raise ⟨"MSRIOGroup::parse_json_msrs(): CPUID RMID bit width % is greater than the MSR " ++
        "provided RMID bit width %", [width, numBit], .invalid⟩
    else .ok ⟨⟩
  | none => .ok ⟨⟩

/-- A field in the walk of `parse_json_msrs`. -/
def parseField (isTrlWritable : Bool) (msrName : String) (offset : BitVec 64) (cpus : List ℕ)
    (added : List Added) (field : String × Json) : Walk (List Added) := do
  let msrFieldName := msrName ++ ":" ++ field.1
  checkMsrField p field.2 msrName field.1
  let data := objectItems field.2
  let beginBit := toInt (Json.get data "begin_bit").numberValue
  let endBit := toInt (Json.get data "end_bit").numberValue
  let function ← stringToFunction (Json.get data "function").stringValue
  let _ ← lift (p.stringToUnits (Json.get data "units").stringValue)
  let isControl := boolValue (Json.get data "writeable")
  let _ ← lift (p.stringToBehavior (Json.get data "behavior").stringValue)
  checkRmid p msrFieldName (endBit - beginBit + 1)
  let endBit := lastBit p msrFieldName beginBit endBit
  if isControl || isTrl isTrlWritable msrFieldName then
    addMsrFieldControl p added ("MSR::" ++ msrFieldName) cpus offset beginBit endBit function
  else .ok added

/-- An MSR in the walk of `parse_json_msrs`. -/
def parseMsr (isTrlWritable : Bool) (added : List Added) (msr : String × Json) :
    Walk (List Added) := do
  checkMsrRoot p msr.2 msr.1
  let data := objectItems msr.2
  let offset ← stoull (Json.get data "offset").stringValue
  let domainType ← lift (p.domainNameToType (Json.get data "domain").stringValue)
  -- `add_raw_msr_signal` asks for the CPUs first
  let cpus ← lift (p.cpus domainType)
  (objectItems (Json.get data "fields")).foldlM
    (parseField p isTrlWritable msr.1 offset cpus) added

def parseJsonMsrs (added : List Added) (str : String) : Walk (List Added) := do
  let msrs ← openDocument p "parse_json_msrs" str
  let isTrlWritable := (p.isTrlWritableInAllDomains msrs).toOption.getD false
  (objectItems msrs).foldlM (parseMsr p isTrlWritable) added

/-- The controls of all documents. -/
def parseAll (docs : List String) : Walk (List Added) := docs.foldlM (parseJsonMsrs p) []

/-! ### The allowlist -/

/-- `allowlist_data`, in the order of the offsets. -/
abbrev Data := List (BitVec 64 × BitVec 64 × String)

/-- A field in the walk of `parse_json_msrs_allowlist`. -/
def allowField (isTrlWritable : Bool) (msrName : String) (combinedWriteMask : BitVec 64)
    (field : String × Json) : Walk (BitVec 64) := do
  checkMsrField p field.2 msrName field.1
  let data := objectItems field.2
  let beginBit := toInt (Json.get data "begin_bit").numberValue
  let endBit := toInt (Json.get data "end_bit").numberValue
  let isControl := boolValue (Json.get data "writeable")
  if isControl || isTrl isTrlWritable (msrName ++ ":" ++ field.1) then do
    let mask ← fieldMask beginBit endBit
    .ok (combinedWriteMask ||| mask)
  else .ok combinedWriteMask

/-- An MSR in the walk of `parse_json_msrs_allowlist`. -/
def allowMsr (isTrlWritable : Bool) (allowlist : Data) (msr : String × Json) : Walk Data := do
  checkMsrRoot p msr.2 msr.1
  let data := objectItems msr.2
  let offset ← stoull (Json.get data "offset").stringValue
  let combinedWriteMask ← (objectItems (Json.get data "fields")).foldlM
    (allowField p isTrlWritable msr.1) 0#64
  .ok (SortedMap.assign offset (combinedWriteMask, msr.1) allowlist)

def parseJsonMsrsAllowlist (allowlist : Data) (str : String) : Walk Data := do
  let msrs ← openDocument p "parse_json_msrs_allowlist" str
  let isTrlWritable ← lift (p.isTrlWritableInAllDomains msrs)
  (objectItems msrs).foldlM (allowMsr p isTrlWritable) allowlist

/-- The allowlist of all documents. -/
def allowAll (docs : List String) : Walk Data := docs.foldlM (parseJsonMsrsAllowlist p) []

/-- A number in hexadecimal digits, filled up with zeros. -/
def toHex (width n : ℕ) : String :=
  let digits := Nat.toDigits 16 n
  String.ofList (List.replicate (width - digits.length) '0' ++ digits)

/-- The line of an offset. -/
def allowlistLine (it : BitVec 64 × BitVec 64 × String) : String :=
  "0x" ++ toHex 8 it.1.toNat ++ ("   0x" ++ toHex 16 it.2.1.toNat ++
    ("   # \"" ++ it.2.2 ++ "\"\n"))

/-- `MSRIOGroup::format_allowlist`, as the lines of the text. -/
def formatAllowlist (allowlist : Data) : List String :=
  "# MSR        Write Mask           # Comment\n" :: allowlist.map allowlistLine

/-! ### What the documents say -/

/-- A field of an MSR. -/
structure Field where
  name : String
  beginBit : ℤ
  endBit : ℤ
  /-- The last bit of the control. -/
  controlEnd : ℤ
  function : String
  isControl : Bool

/-- An MSR. -/
structure Entry where
  name : String
  offset : BitVec 64
  domain : String
  fields : List Field

/-- A field from its object. -/
def fieldOf (isTrlWritable : Bool) (msrName : String) (field : String × Json) : Field :=
  let msrFieldName := msrName ++ ":" ++ field.1
  let data := objectItems field.2
  let beginBit := toInt (Json.get data "begin_bit").numberValue
  let endBit := toInt (Json.get data "end_bit").numberValue
  ⟨msrFieldName, beginBit, endBit, lastBit p msrFieldName beginBit endBit,
    (Json.get data "function").stringValue,
    boolValue (Json.get data "writeable") || isTrl isTrlWritable msrFieldName⟩

/-- An MSR from its object. -/
def entryOf (isTrlWritable : Bool) (msr : String × Json) : Entry :=
  let data := objectItems msr.2
  ⟨msr.1, BitVec.ofNat 64 (hexValue ((Json.get data "offset").stringValue.toList.drop 2)),
    (Json.get data "domain").stringValue,
    (objectItems (Json.get data "fields")).map (fieldOf p isTrlWritable msr.1)⟩

/-- The MSRs of a document. -/
def entriesOf (str : String) : List Entry :=
  match p.parse str with
  | .ok root =>
    let msrs := Json.get (objectItems root) "msrs"
    let isTrlWritable := (p.isTrlWritableInAllDomains msrs).toOption.getD false
    (objectItems msrs).map (entryOf p isTrlWritable)
  | .error _ => []

/-- The MSRs of all documents. -/
def entries (docs : List String) : List Entry := docs.flatMap (entriesOf p)

/-! ### Masks -/

/-- Both shifts of the mask of a field are by bits of a word. -/
def ShiftsFit (beginBit endBit : ℤ) : Prop :=
  (0 ≤ endBit - beginBit + 1 ∧ endBit - beginBit + 1 < 64) ∧ 0 ≤ beginBit ∧ beginBit < 64

/-- The mask of the bits from one to another. -/
def bits (beginBit endBit : ℤ) : BitVec 64 :=
  (1#64 <<< (endBit - beginBit + 1).toNat - 1#64) <<< beginBit.toNat

theorem fieldMask_eq (beginBit endBit : ℤ) : (ShiftsFit beginBit endBit ∧
      fieldMask beginBit endBit = .ok (bits beginBit endBit)) ∨
    (¬ ShiftsFit beginBit endBit ∧ fieldMask beginBit endBit = .error .undefined) := by
  unfold fieldMask shl ShiftsFit bits
  by_cases hwidth : 0 ≤ endBit - beginBit + 1 ∧ endBit - beginBit + 1 < 64
  · by_cases hbegin : 0 ≤ beginBit ∧ beginBit < 64
    · refine .inl ⟨⟨hwidth, hbegin⟩, ?_⟩
      rw [if_pos hwidth]
      exact if_pos hbegin
    · refine .inr ⟨fun h => hbegin h.2, ?_⟩
      rw [if_pos hwidth]
      exact if_neg hbegin
  · refine .inr ⟨fun h => hwidth h.1, ?_⟩
    rw [if_neg hwidth]
    rfl

/-- The bits of the mask of a field. -/
theorem getLsbD_bits {beginBit endBit : ℤ} (h : ShiftsFit beginBit endBit) {i : ℕ} (hi : i < 64) :
    (bits beginBit endBit).getLsbD i = true ↔ beginBit ≤ i ∧ i ≤ endBit := by
  obtain ⟨⟨hwidth, hwidth'⟩, hbegin, -⟩ := h
  obtain ⟨b, rfl⟩ := Int.eq_ofNat_of_zero_le hbegin
  obtain ⟨n, hn⟩ := Int.eq_ofNat_of_zero_le hwidth
  have hend : endBit = n + b - 1 := by omega
  subst hend
  have hn : ((n : ℤ) + b - 1 - b + 1).toNat = n := by omega
  rw [bits, hn, Int.toNat_natCast, BitVec.getLsbD_shiftLeft, Mask.getLsbD_low (by omega)]
  simp only [hi, decide_true, Bool.true_and, Bool.and_eq_true, Bool.not_eq_true',
    decide_eq_false_iff_not, decide_eq_true_eq]
  omega

/-! ### The walks as functions of what the documents say -/

/-- A walk that makes no undefined shift. -/
def Defined {α : Type} (m : Walk α) : Prop := m ≠ .error .undefined

/-- A walk that does not raise returns the value, or the shift that is bad is undefined. -/
def Follows {α : Type} (bad : Prop) (a : α) : Walk α → Prop
  | .ok b => b = a ∧ ¬ bad
  | .error .undefined => bad
  | .error (.raised _) => True

namespace Follows

variable {α β γ : Type} {bad bad' : Prop} {a : α} {b : β}

/-- What comes before may raise. -/
theorem of_defined {m : Walk β} {f : β → Walk α} (hm : Defined m)
    (hf : ∀ b, m = .ok b → Follows bad a (f b)) : Follows bad a (m >>= f) := by
  cases hm' : m with
  | ok b => exact hf b hm'
  | error e =>
    cases e with
    | raised e => exact trivial
    | undefined => exact absurd hm' hm

theorem bind {m : Walk β} {f : β → Walk α} (hm : Follows bad b m) (hf : Follows bad' a (f b)) :
    Follows (bad ∨ bad') a (m >>= f) := by
  cases m with
  | ok b' =>
    obtain ⟨rfl, hbad⟩ := hm
    change Follows _ _ (f b')
    cases h : f b' with
    | ok a' =>
      rw [h] at hf
      exact ⟨hf.1, not_or.mpr ⟨hbad, hf.2⟩⟩
    | error e =>
      cases e with
      | raised e => exact trivial
      | undefined => rw [h] at hf; exact .inr hf
  | error e =>
    cases e with
    | raised e => exact trivial
    | undefined => exact .inl hm

theorem map {m : Walk β} (g : β → α) (hm : Follows bad b m) :
    Follows bad (g b) (m >>= fun b => .ok (g b)) := by
  cases m with
  | ok b' => exact ⟨congrArg g hm.1, hm.2⟩
  | error e => cases e <;> exact hm

theorem eq_ok {m : Walk α} (hm : Follows bad a m) (hbad : ¬ bad)
    (hraised : ∀ e, m ≠ .error (.raised e)) : m = .ok a := by
  cases m with
  | ok b => rw [hm.1]
  | error e =>
    cases e with
    | raised e => exact absurd rfl (hraised e)
    | undefined => exact absurd hm hbad

theorem foldlM (bad : γ → Prop) (next : α → γ → α) {f : α → γ → Walk α} {xs : List γ}
    (h : ∀ x ∈ xs, ∀ a, Follows (bad x) (next a x) (f a x)) (a : α) :
    Follows (∃ x ∈ xs, bad x) (xs.foldl next a) (xs.foldlM f a) := by
  induction xs generalizing a with
  | nil => exact ⟨rfl, by simp⟩
  | cons x xs ih =>
    rw [foldlM_cons, foldl_cons]
    simp only [mem_cons, exists_eq_or_imp]
    exact (h x mem_cons_self a).bind (ih (fun y hy => h y (mem_cons_of_mem _ hy)) _)

end Follows

namespace Defined

variable {α β γ : Type}

theorem ok (a : α) : Defined (.ok a : Walk α) := nofun

theorem raise (e : Exception) : Defined (raise e : Walk α) := nofun

theorem lift (m : Except Exception α) : Defined (lift m) := by
  cases m <;> nofun

theorem bind {m : Walk β} {f : β → Walk α} (hm : Defined m) (hf : ∀ b, Defined (f b)) :
    Defined (m >>= f) := by
  cases m with
  | ok b => exact hf b
  | error e => exact fun h => hm (by cases h; rfl)

theorem forM {f : γ → Walk PUnit} {xs : List γ} (h : ∀ x ∈ xs, Defined (f x)) :
    Defined (xs.forM f) := by
  induction xs with
  | nil => nofun
  | cons x xs ih =>
    exact (h x mem_cons_self).bind fun _ => ih fun y hy => h y (mem_cons_of_mem _ hy)

theorem stoull (text : String) : Defined (stoull text) := by
  unfold Allowlist.stoull
  dsimp only
  split_ifs
  · exact ok _
  · exact raise _

theorem jsonCheckIsValidOffset (obj : Json) : Defined (jsonCheckIsValidOffset obj) := by
  unfold Allowlist.jsonCheckIsValidOffset
  split_ifs
  · exact (stoull _).bind fun _ => ok _
  · exact ok _

theorem check {c : JsonChecker} (hc : ∀ obj, Defined (c.isValid obj)) (key loc : String)
    (obj : Json) : Defined (c.check key loc obj) := by
  have haccepts : Defined (c.accepts obj) := by
    unfold JsonChecker.accepts
    split_ifs
    · exact hc obj
    · exact ok _
  refine haccepts.bind fun isValid => ?_
  split_ifs
  · exact raise _
  · exact ok _

theorem checkExpectedKeyValues {root : Json} {required optional : List (String × JsonChecker)}
    {loc : String} (hrequired : ∀ c ∈ required, ∀ obj, Defined (c.2.isValid obj))
    (hoptional : ∀ c ∈ optional, ∀ obj, Defined (c.2.isValid obj)) :
    Defined (checkExpectedKeyValues root required optional loc) := by
  unfold Allowlist.checkExpectedKeyValues
  refine (forM fun obj _ => ?_).bind fun _ => (forM fun c hc => ?_).bind fun _ =>
    forM fun c hc => ?_
  · split_ifs
    · exact raise _
    · exact ok _
  · cases (objectItems root).lookup c.1 with
    | none => exact raise _
    | some obj => exact check (hrequired c hc) _ _ _
  · cases (objectItems root).lookup c.1 with
    | none => exact ok _
    | some obj => exact check (hoptional c hc) _ _ _

theorem checkMsrRoot (msrRoot : Json) (msrName : String) :
    Defined (checkMsrRoot p msrRoot msrName) := by
  have hkeys : ∀ loc, Defined (Allowlist.checkExpectedKeyValues msrRoot
      [("domain", ⟨.string, jsonCheckIsValidDomain p, "must be a valid domain string"⟩),
        ("fields", ⟨.object, Allowlist.jsonCheckNullFunc, "must be an object"⟩),
        ("offset", ⟨.string, Allowlist.jsonCheckIsValidOffset,
          "must be a hex string and non-zero"⟩)] [] loc) := by
    refine fun loc => checkExpectedKeyValues ?_ (by simp)
    simp only [mem_cons, not_mem_nil, or_false, forall_eq_or_imp, forall_eq]
    exact ⟨fun _ => ok _, fun _ => ok _, jsonCheckIsValidOffset⟩
  unfold Allowlist.checkMsrRoot
  split_ifs
  · exact (raise _).bind fun _ => hkeys _
  · exact hkeys _

theorem checkMsrField (msrField : Json) (msrName fieldName : String) :
    Defined (checkMsrField p msrField msrName fieldName) := by
  unfold Allowlist.checkMsrField
  have hkeys : ∀ {required optional loc}, (∀ c ∈ required, ∀ obj, Defined (c.2.isValid obj)) →
      (∀ c ∈ optional, ∀ obj, Defined (c.2.isValid obj)) →
      Defined (Allowlist.checkExpectedKeyValues msrField required optional loc) :=
    fun h h' => checkExpectedKeyValues h h'
  split_ifs
  · exact fun h => nomatch h
  · refine hkeys ?_ ?_ <;>
      simp only [mem_cons, not_mem_nil, or_false, forall_eq_or_imp, forall_eq]
    · exact ⟨fun _ => ok _, fun _ => ok _, fun _ => ok _, fun _ => ok _, fun _ => ok _,
        fun _ => ok _, fun _ => ok _, fun _ => ok _⟩
    · exact fun _ => ok _

theorem checkRmid (msrFieldName : String) (numBit : ℤ) :
    Defined (checkRmid p msrFieldName numBit) := by
  unfold Allowlist.checkRmid
  split
  · split_ifs
    · exact raise _
    · exact ok _
  · exact ok _

theorem openDocument (func str : String) : Defined (openDocument p func str) := by
  unfold Allowlist.openDocument
  have htop : ∀ root, Defined (checkTopLevel root) := by
    refine fun root => checkExpectedKeyValues ?_ (by simp)
    simp only [mem_cons, not_mem_nil, or_false, forall_eq]
    exact fun _ => ok _
  cases p.parse str with
  | error err => nofun
  | ok root =>
    change Defined (ite _ _ _)
    split_ifs
    · nofun
    · exact (htop root).bind fun _ => ok _

end Defined

/-! ### The controls that are made -/

/-- Whether the control of a field is made: there is no CPU to make it for, or the function can be
encoded, the bits are in order, and the driver allows all of them. -/
def isMade (cpus : List ℕ) (offset : BitVec 64) (f : Field) : Bool :=
  cpus.isEmpty || (f.function != "overflow" && decide (f.beginBit ≤ f.controlEnd) &&
    match p.systemWriteMask offset with
    | .ok offsetMask => bits f.beginBit f.controlEnd &&& offsetMask == bits f.beginBit f.controlEnd
    | .error _ => false)

/-- The control that a field adds, if any. -/
def addedBy (cpus : List ℕ) (offset : BitVec 64) (f : Field) : List Added :=
  if f.isControl && isMade p cpus offset f then
    [⟨"MSR::" ++ f.name, offset, f.beginBit, f.controlEnd,
      List.replicate cpus.length (bits f.beginBit f.controlEnd)⟩]
  else []

/-- The shift that is bad for the control of a field. -/
def BadControl (cpus : List ℕ) (f : Field) : Prop :=
  f.isControl = true ∧ cpus ≠ [] ∧ ¬ ShiftsFit f.beginBit f.controlEnd

variable {function : MsrFunction}

theorem stringToFunction_eq_overflow {str : String}
    (h : stringToFunction str = .ok function) : function = .overflow ↔ str = "overflow" := by
  unfold stringToFunction at h
  split at h <;> cases h <;> simp

theorem Defined.stringToFunction (str : String) : Defined (stringToFunction str) := by
  unfold Allowlist.stringToFunction
  split <;> nofun

theorem mapM_const {m : Walk (BitVec 64)} {cpus : List ℕ} (hcpus : cpus ≠ []) :
    cpus.mapM (fun _ => m) = m.map (List.replicate cpus.length) := by
  have hcons : ∀ (cpu : ℕ) (cpus : List ℕ),
      (cpu :: cpus).mapM (fun _ => m) = m.map (List.replicate (cpus.length + 1)) := by
    intro cpu cpus
    induction cpus generalizing cpu with
    | nil =>
      rw [mapM_cons, mapM_nil]
      cases m <;> rfl
    | cons next cpus ih =>
      rw [mapM_cons, ih]
      cases m <;> rfl
  cases cpus with
  | nil => exact absurd rfl hcpus
  | cons cpu cpus => exact hcons cpu cpus

variable {p} {offset : BitVec 64}

/-- A control is made with the mask of its bits, or raises, or its shift is undefined. -/
theorem msrFieldControl_follows {cpus : List ℕ} {f : Field}
    (hfunction : stringToFunction f.function = .ok function)
    (hcpus : cpus ≠ []) :
    (¬ ShiftsFit f.beginBit f.controlEnd ∧
      msrFieldControl p offset f.beginBit f.controlEnd function = .error .undefined) ∨
    ShiftsFit f.beginBit f.controlEnd ∧
      ((isMade p cpus offset f = true ∧
        msrFieldControl p offset f.beginBit f.controlEnd function =
          .ok (bits f.beginBit f.controlEnd)) ∨
      (isMade p cpus offset f = false ∧
        ∃ e, msrFieldControl p offset f.beginBit f.controlEnd function = .error (.raised e))) := by
  have hempty : cpus.isEmpty = false := by simpa using hcpus
  unfold msrFieldControl isMade
  rw [hempty, Bool.false_or]
  rcases fieldMask_eq f.beginBit f.controlEnd with ⟨hfit, hmask⟩ | ⟨hfit, hmask⟩
  · refine .inr ⟨hfit, ?_⟩
    rw [hmask]
    change (_ ∧ ite _ _ _ = _) ∨ (_ ∧ ∃ e, ite _ _ _ = _)
    by_cases hoverflow : function = .overflow
    · have hstr := (stringToFunction_eq_overflow hfunction).mp hoverflow
      rw [if_pos hoverflow]
      exact .inr ⟨by simp [hstr], _, rfl⟩
    · have hstr : f.function ≠ "overflow" := fun h =>
        hoverflow ((stringToFunction_eq_overflow hfunction).mpr h)
      rw [if_neg hoverflow]
      by_cases horder : f.beginBit > f.controlEnd
      · rw [if_pos horder]
        exact .inr ⟨by simp [not_le.mpr horder], _, rfl⟩
      · rw [if_neg horder]
        cases hdriver : p.systemWriteMask offset with
        | error e => exact .inr ⟨by simp, e, rfl⟩
        | ok offsetMask =>
          change (_ ∧ ite _ _ _ = _) ∨ (_ ∧ ∃ e, ite _ _ _ = _)
          by_cases hallowed : bits f.beginBit f.controlEnd &&& offsetMask ≠
              bits f.beginBit f.controlEnd
          · rw [if_pos hallowed]
            exact .inr ⟨by simp [hallowed], _, rfl⟩
          · rw [if_neg hallowed]
            exact .inl ⟨by simp [hstr, not_lt.mp horder, not_not.mp hallowed], rfl⟩
  · refine .inl ⟨hfit, ?_⟩
    rw [hmask]
    rfl

theorem addMsrFieldControl_follows {cpus : List ℕ} {f : Field}
    (hfunction : stringToFunction f.function = .ok function)
    (hcontrol : f.isControl = true) (added : List Added) :
    Follows (BadControl cpus f) (added ++ addedBy p cpus offset f)
      (addMsrFieldControl p added ("MSR::" ++ f.name) cpus offset f.beginBit f.controlEnd
        function) := by
  unfold addMsrFieldControl BadControl addedBy
  rw [hcontrol, Bool.true_and]
  by_cases hcpus : cpus = []
  · subst hcpus
    exact ⟨by simp [isMade], by simp⟩
  · rw [mapM_const hcpus]
    rcases msrFieldControl_follows (p := p) hfunction hcpus with
      ⟨hfit, hmask⟩ | ⟨hfit, ⟨hmade, hmask⟩ | ⟨hmade, e, hmask⟩⟩
    · rw [hmask]
      exact ⟨rfl, hcpus, hfit⟩
    · rw [hmask, hmade]
      exact ⟨rfl, fun h => h.2.2 hfit⟩
    · rw [hmask, hmade]
      exact ⟨by simp, fun h => h.2.2 hfit⟩

/-! ### The walk of the controls -/

variable (isTrlWritable : Bool)

theorem parseField_follows (msrName : String) (offset : BitVec 64)
    (cpus : List ℕ) (added : List Added) (field : String × Json) :
    Follows (BadControl cpus (fieldOf p isTrlWritable msrName field))
      (added ++ addedBy p cpus offset (fieldOf p isTrlWritable msrName field))
      (parseField p isTrlWritable msrName offset cpus added field) := by
  unfold parseField
  refine .of_defined (.checkMsrField _ _ _ _) fun _ _ => ?_
  refine .of_defined (.stringToFunction _) fun function hfunction => ?_
  refine .of_defined (.lift _) fun _ _ => ?_
  refine .of_defined (.lift _) fun _ _ => ?_
  refine .of_defined (.checkRmid _ _ _) fun _ _ => ?_
  set f := fieldOf p isTrlWritable msrName field with hf
  change Follows _ _ (if f.isControl then addMsrFieldControl p added ("MSR::" ++ f.name) cpus offset
    f.beginBit f.controlEnd function else .ok added)
  split_ifs with hcontrol
  · exact addMsrFieldControl_follows hfunction hcontrol added
  · exact ⟨by simp [addedBy, hcontrol], fun h => hcontrol h.1⟩

/-- The CPUs of an MSR. -/
def cpusOf (p : Platform) (e : Entry) : List ℕ :=
  ((p.domainNameToType e.domain).bind p.cpus).toOption.getD []

/-- The controls that an MSR adds. -/
def Entry.added (p : Platform) (e : Entry) : List Added :=
  e.fields.flatMap (addedBy p (cpusOf p e) e.offset)

/-- A shift is bad for a control of an MSR. -/
def Entry.BadControl (p : Platform) (e : Entry) : Prop :=
  ∃ f ∈ e.fields, Allowlist.BadControl (cpusOf p e) f

theorem foldl_append {α β : Type} (g : α → List β) (xs : List α) (ys : List β) :
    xs.foldl (fun ys x => ys ++ g x) ys = ys ++ xs.flatMap g := by
  induction xs generalizing ys with
  | nil => simp
  | cons x xs ih => simp [ih]

theorem stoull_eq_ok {text : String} (h : stoull text = .ok offset) :
    offset = BitVec.ofNat 64 (hexValue (text.toList.drop 2)) := by
  unfold stoull at h
  dsimp only at h
  split_ifs at h
  · exact (Except.ok.inj h).symm
  · cases h

theorem lift_eq_ok {α : Type} {m : Except Exception α} {a : α} (h : lift m = .ok a) :
    m = .ok a := by
  cases m with
  | ok b => rw [← Except.ok.inj h]
  | error e => cases h

theorem parseMsr_follows (added : List Added) (msr : String × Json) :
    Follows ((entryOf p isTrlWritable msr).BadControl p)
      (added ++ (entryOf p isTrlWritable msr).added p) (parseMsr p isTrlWritable added msr) := by
  unfold parseMsr
  refine .of_defined (.checkMsrRoot _ _ _) fun _ _ => ?_
  refine .of_defined (.stoull _) fun offset hoffset => ?_
  refine .of_defined (.lift _) fun domainType hdomain => ?_
  refine .of_defined (.lift _) fun cpus hcpus => ?_
  have hcpusOf : cpusOf p (entryOf p isTrlWritable msr) = cpus := by
    unfold cpusOf
    have hdomain' : p.domainNameToType (entryOf p isTrlWritable msr).domain = .ok domainType :=
      lift_eq_ok hdomain
    rw [hdomain']
    change (p.cpus domainType).toOption.getD [] = cpus
    rw [lift_eq_ok hcpus]
    rfl
  have hloop := Follows.foldlM
    (fun field => BadControl cpus (fieldOf p isTrlWritable msr.1 field))
    (fun added field => added ++ addedBy p cpus offset (fieldOf p isTrlWritable msr.1 field))
    (fun field (_ : field ∈ objectItems (Json.get (objectItems msr.2) "fields")) added =>
      parseField_follows isTrlWritable msr.1 offset cpus added field) added
  rw [foldl_append] at hloop
  unfold Entry.BadControl Entry.added
  rw [hcpusOf]
  have hoffset' : (entryOf p isTrlWritable msr).offset = offset := (stoull_eq_ok hoffset).symm
  rw [hoffset']
  unfold entryOf
  dsimp only
  rw [flatMap_map]
  simpa only [mem_map, exists_exists_and_eq_and] using hloop

theorem openDocument_eq_ok {func str : String} {msrs : Json}
    (h : openDocument p func str = .ok msrs) : ∃ root, p.parse str = .ok root ∧
      msrs = Json.get (objectItems root) "msrs" := by
  unfold openDocument at h
  cases hparse : p.parse str with
  | error err => rw [hparse] at h; cases h
  | ok root =>
    rw [hparse] at h
    refine ⟨root, rfl, ?_⟩
    change ite _ _ _ = _ at h
    split_ifs at h
    · cases h
    · cases htop : checkTopLevel root with
      | error e => rw [htop] at h; cases h
      | ok => rw [htop] at h; exact (Except.ok.inj h).symm

theorem entriesOf_eq {func str : String} {msrs : Json} (h : openDocument p func str = .ok msrs) :
    entriesOf p str = (objectItems msrs).map
      (entryOf p ((p.isTrlWritableInAllDomains msrs).toOption.getD false)) := by
  obtain ⟨root, hroot, rfl⟩ := openDocument_eq_ok h
  unfold entriesOf
  rw [hroot]

theorem parseJsonMsrs_follows (added : List Added) (str : String) :
    Follows (∃ e ∈ entriesOf p str, e.BadControl p)
      (added ++ (entriesOf p str).flatMap (Entry.added p)) (parseJsonMsrs p added str) := by
  unfold parseJsonMsrs
  refine .of_defined (.openDocument _ _ _) fun msrs hmsrs => ?_
  rw [entriesOf_eq hmsrs, flatMap_map]
  set isTrlWritable := (p.isTrlWritableInAllDomains msrs).toOption.getD false
  have hloop := Follows.foldlM (fun msr => (entryOf p isTrlWritable msr).BadControl p)
    (fun added msr => added ++ (entryOf p isTrlWritable msr).added p)
    (fun msr (_ : msr ∈ objectItems msrs) added => parseMsr_follows _ added msr) added
  rw [foldl_append] at hloop
  simpa only [mem_map, exists_exists_and_eq_and] using hloop

/-- The walk of the controls adds those of all MSRs. -/
theorem parseAll_follows (docs : List String) :
    Follows (∃ e ∈ entries p docs, e.BadControl p) ((entries p docs).flatMap (Entry.added p))
      (parseAll p docs) := by
  have hloop := Follows.foldlM (fun str => ∃ e ∈ entriesOf p str, e.BadControl p)
    (fun added str => added ++ (entriesOf p str).flatMap (Entry.added p))
    (fun str (_ : str ∈ docs) added => parseJsonMsrs_follows added str) []
  rw [foldl_append, nil_append] at hloop
  unfold entries parseAll
  rw [flatMap_assoc]
  convert hloop using 2
  simp only [mem_flatMap]
  constructor
  · rintro ⟨e, ⟨str, hstr, he⟩, hbad⟩
    exact ⟨str, hstr, e, he, hbad⟩
  · rintro ⟨str, hstr, e, he, hbad⟩
    exact ⟨e, ⟨str, hstr, he⟩, hbad⟩

/-! ### The walk of the allowlist -/

/-- The writable bits of an MSR. -/
def Entry.mask (e : Entry) : BitVec 64 :=
  e.fields.foldl (fun mask f =>
    if f.isControl then mask ||| bits f.beginBit f.endBit else mask) 0#64

/-- The shift of a writable field is bad. -/
def BadMask (f : Field) : Prop := f.isControl = true ∧ ¬ ShiftsFit f.beginBit f.endBit

theorem allowField_follows (msrName : String) (mask : BitVec 64)
    (field : String × Json) :
    Follows (BadMask (fieldOf p isTrlWritable msrName field))
      (if (fieldOf p isTrlWritable msrName field).isControl then
        mask ||| bits (fieldOf p isTrlWritable msrName field).beginBit
          (fieldOf p isTrlWritable msrName field).endBit else mask)
      (allowField p isTrlWritable msrName mask field) := by
  unfold allowField
  refine .of_defined (.checkMsrField _ _ _ _) fun _ _ => ?_
  set f := fieldOf p isTrlWritable msrName field with hf
  change Follows _ _ (if f.isControl then
    fieldMask f.beginBit f.endBit >>= fun m => .ok (mask ||| m) else .ok mask)
  unfold BadMask
  split_ifs with hcontrol
  · rcases fieldMask_eq f.beginBit f.endBit with ⟨hfit, hmask⟩ | ⟨hfit, hmask⟩
    · rw [hmask]
      exact ⟨rfl, fun h => h.2 hfit⟩
    · rw [hmask]
      exact ⟨hcontrol, hfit⟩
  · exact ⟨rfl, fun h => hcontrol h.1⟩

theorem allowMsr_follows (allowlist : Data) (msr : String × Json) :
    Follows (∃ f ∈ (entryOf p isTrlWritable msr).fields, BadMask f)
      (SortedMap.assign (entryOf p isTrlWritable msr).offset
        ((entryOf p isTrlWritable msr).mask, (entryOf p isTrlWritable msr).name) allowlist)
      (allowMsr p isTrlWritable allowlist msr) := by
  unfold allowMsr
  refine .of_defined (.checkMsrRoot _ _ _) fun _ _ => ?_
  refine .of_defined (.stoull _) fun offset hoffset => ?_
  have hloop := Follows.foldlM (fun field => BadMask (fieldOf p isTrlWritable msr.1 field)) _
    (fun field (_ : field ∈ objectItems (Json.get (objectItems msr.2) "fields")) mask =>
      allowField_follows isTrlWritable msr.1 mask field) 0#64
  have hmask : (entryOf p isTrlWritable msr).mask = _ := foldl_map
  have hoffset' : (entryOf p isTrlWritable msr).offset = offset := (stoull_eq_ok hoffset).symm
  rw [hmask, hoffset']
  unfold entryOf
  simp only [mem_map, exists_exists_and_eq_and]
  exact hloop.map fun mask => SortedMap.assign offset (mask, msr.1) allowlist

/-- The allowlist after an MSR. -/
def allow (allowlist : Data) (e : Entry) : Data :=
  SortedMap.assign e.offset (e.mask, e.name) allowlist

theorem parseJsonMsrsAllowlist_follows (allowlist : Data) (str : String) :
    Follows (∃ e ∈ entriesOf p str, ∃ f ∈ e.fields, BadMask f)
      ((entriesOf p str).foldl allow allowlist) (parseJsonMsrsAllowlist p allowlist str) := by
  unfold parseJsonMsrsAllowlist
  refine .of_defined (.openDocument _ _ _) fun msrs hmsrs => ?_
  refine .of_defined (.lift _) fun isTrlWritable htrl => ?_
  have htrl' : (p.isTrlWritableInAllDomains msrs).toOption.getD false = isTrlWritable := by
    rw [lift_eq_ok htrl]
    rfl
  rw [entriesOf_eq hmsrs, htrl', foldl_map]
  have hloop := Follows.foldlM
    (fun msr => ∃ f ∈ (entryOf p isTrlWritable msr).fields, BadMask f) _
    (fun msr (_ : msr ∈ objectItems msrs) allowlist =>
      allowMsr_follows isTrlWritable allowlist msr) allowlist
  simpa only [mem_map, exists_exists_and_eq_and, allow] using hloop

/-- The walk of the allowlist assigns the masks of all MSRs. -/
theorem allowAll_follows (docs : List String) :
    Follows (∃ e ∈ entries p docs, ∃ f ∈ e.fields, BadMask f) ((entries p docs).foldl allow [])
      (allowAll p docs) := by
  have hloop := Follows.foldlM (fun str => ∃ e ∈ entriesOf p str, ∃ f ∈ e.fields, BadMask f) _
    (fun str (_ : str ∈ docs) allowlist => parseJsonMsrsAllowlist_follows allowlist str) []
  unfold entries allowAll
  rw [foldl_flatMap]
  convert hloop using 2
  simp only [mem_flatMap]
  constructor
  · rintro ⟨e, ⟨str, hstr, he⟩, hbad⟩
    exact ⟨str, hstr, e, he, hbad⟩
  · rintro ⟨str, hstr, e, he, hbad⟩
    exact ⟨e, ⟨str, hstr, he⟩, hbad⟩

/-! ### The bits of the allowlist -/

/-- The last MSR at an offset. -/
def lastAt (offset : BitVec 64) (es : List Entry) : Option Entry :=
  lastOf (fun e => if e.offset = offset then some e else none) es

/-- The last MSR at an offset decides over it. -/
theorem lookup_allow (es : List Entry) (offset : BitVec 64) :
    (es.foldl allow []).lookup offset = (lastAt offset es).map fun e => (e.mask, e.name) := by
  unfold lastAt
  induction es using List.reverseRecOn with
  | nil => rfl
  | append_singleton es e ih =>
    rw [List.foldl_append, foldl_cons, foldl_nil, allow, SortedMap.lookup_assign, ih,
      lastOf_concat]
    by_cases h : e.offset = offset
    · simp [h]
    · have h' : offset ≠ e.offset := fun heq => h heq.symm
      simp [h, h']

theorem getLsbD_mask {e : Entry} (hfit : ∀ f ∈ e.fields, ¬ BadMask f) {i : ℕ} (hi : i < 64) :
    e.mask.getLsbD i = true ↔
      ∃ f ∈ e.fields, f.isControl = true ∧ f.beginBit ≤ i ∧ i ≤ f.endBit := by
  suffices h : ∀ (fs : List Field) (mask : BitVec 64), (∀ f ∈ fs, ¬ BadMask f) →
      ((fs.foldl (fun mask f => if f.isControl then mask ||| bits f.beginBit f.endBit else mask)
        mask).getLsbD i = true ↔ mask.getLsbD i = true ∨
          ∃ f ∈ fs, f.isControl = true ∧ f.beginBit ≤ i ∧ i ≤ f.endBit) by
    have hmask := h e.fields 0#64 hfit
    simpa [Entry.mask] using hmask
  intro fs
  induction fs with
  | nil => simp
  | cons f fs ih =>
    intro mask hfs
    rw [foldl_cons, ih _ fun f hf => hfs f (mem_cons_of_mem _ hf)]
    simp only [mem_cons, exists_eq_or_imp]
    cases hcontrol : f.isControl with
    | false => simp
    | true =>
      have hshifts : ShiftsFit f.beginBit f.endBit := by
        by_contra hbad
        exact hfs f mem_cons_self ⟨hcontrol, hbad⟩
      simp only [if_true, BitVec.getLsbD_or, Bool.or_eq_true, getLsbD_bits hshifts hi, true_and,
        or_assoc]

/-- The offset and the mask that a line of an allowlist says. -/
def readLine (line : String) : BitVec 64 × BitVec 64 :=
  let text := line.toList.drop 2
  (BitVec.ofNat 64 (hexValue text),
    BitVec.ofNat 64 (hexValue ((text.dropWhile isHexDigit).drop 5)))

/-- The write mask of an allowlist for an offset, which is 0 where it has none.  The first line is
a comment. -/
def maskAt (allowlist : List String) (offset : BitVec 64) : BitVec 64 :=
  ((allowlist.tail.map readLine).lookup offset).getD 0#64

/-! The lines say what the map has. -/

theorem digitChar_hex {d : ℕ} (hd : d < 16) :
    isHexDigit d.digitChar = true ∧ ∀ n, addHexDigit n d.digitChar = 16 * n + d := by
  have hdigit : isHexDigit d.digitChar = true ∧ addHexDigit 0 d.digitChar = d := by
    revert d
    decide
  refine ⟨hdigit.1, fun n => ?_⟩
  have hvalue := hdigit.2
  unfold addHexDigit at hvalue ⊢
  omega

/-- A number in hexadecimal digits reads back. -/
theorem toDigits_hex (n : ℕ) : (∀ c ∈ Nat.toDigits 16 n, isHexDigit c = true) ∧
    (Nat.toDigits 16 n).foldl addHexDigit 0 = n := by
  induction n using Nat.strongRecOn with
  | ind n ih =>
    by_cases hn : n < 16
    · rw [Nat.toDigits_of_lt_base hn]
      obtain ⟨hdigit, hvalue⟩ := digitChar_hex hn
      simpa [hvalue] using hdigit
    · obtain ⟨hall, hvalue⟩ := ih (n / 16) (by omega)
      obtain ⟨hdigit, hlast⟩ := digitChar_hex (Nat.mod_lt n (by decide : 16 > 0))
      rw [Nat.toDigits_of_base_le (by decide) (by omega)]
      refine ⟨fun c hc => ?_, ?_⟩
      · rcases mem_append.mp hc with hc | hc
        · exact hall c hc
        · rw [mem_singleton.mp hc]
          exact hdigit
      · rw [List.foldl_append, hvalue, foldl_cons, foldl_nil, hlast]
        omega

theorem toHex_digits (width n : ℕ) : (∀ c ∈ (toHex width n).toList, isHexDigit c = true) ∧
    (toHex width n).toList.foldl addHexDigit 0 = n := by
  obtain ⟨hall, hvalue⟩ := toDigits_hex n
  have hzeros : ∀ k, (List.replicate k '0').foldl addHexDigit 0 = 0 := by
    intro k
    induction k with
    | zero => rfl
    | succ k ih => exact ih
  unfold toHex
  dsimp only
  rw [String.toList_ofList, List.foldl_append, hzeros, hvalue]
  refine ⟨fun c hc => ?_, rfl⟩
  rcases mem_append.mp hc with hc | hc
  · rw [(mem_replicate.mp hc).2]
    decide
  · exact hall c hc

theorem hexValue_toHex (width n : ℕ) (rest : List Char) :
    hexValue ((toHex width n).toList ++ ' ' :: rest) = n ∧
      ((toHex width n).toList ++ ' ' :: rest).dropWhile isHexDigit = ' ' :: rest := by
  obtain ⟨hall, hvalue⟩ := toHex_digits width n
  have hblank : isHexDigit ' ' = false := by decide
  unfold hexValue
  rw [takeWhile_append_of_pos hall, dropWhile_append_of_pos hall]
  simp [hblank, hvalue]

theorem readLine_allowlistLine (it : BitVec 64 × BitVec 64 × String) :
    readLine (allowlistLine it) = (it.1, it.2.1) := by
  have hmask := hexValue_toHex 16 it.2.1.toNat ("  # \"" ++ it.2.2 ++ "\"\n").toList
  have hoffset := hexValue_toHex 8 it.1.toNat
    ("  0x" ++ toHex 16 it.2.1.toNat ++ ("   # \"" ++ it.2.2 ++ "\"\n")).toList
  have hline : (allowlistLine it).toList.drop 2 = (toHex 8 it.1.toNat).toList ++ ' ' ::
      ("  0x" ++ toHex 16 it.2.1.toNat ++ ("   # \"" ++ it.2.2 ++ "\"\n")).toList := by
    simp [allowlistLine]
  have hrest : (' ' :: ("  0x" ++ toHex 16 it.2.1.toNat ++
      ("   # \"" ++ it.2.2 ++ "\"\n")).toList).drop 5 =
      (toHex 16 it.2.1.toNat).toList ++ ' ' :: ("  # \"" ++ it.2.2 ++ "\"\n").toList := by
    simp
  unfold readLine
  dsimp only
  rw [hline, hoffset.1, hoffset.2, hrest, hmask.1, BitVec.ofNat_toNat, BitVec.ofNat_toNat]
  simp

theorem maskAt_formatAllowlist (data : Data) (offset : BitVec 64) :
    maskAt (formatAllowlist data) offset = (data.lookup offset).elim 0#64 (·.1) := by
  unfold maskAt formatAllowlist
  rw [tail_cons, map_map]
  induction data with
  | nil => rfl
  | cons it data ih =>
    obtain ⟨key, value⟩ := it
    rw [map_cons, Function.comp_apply, readLine_allowlistLine, lookup_cons,
      lookup_cons]
    cases offset == key with
    | true => rfl
    | false => exact ih

/-- The allowlist has the bits of the controls at each offset and no others, so that no control has
a bit that the allowlist does not have. -/
structure Exact (added : List Added) (allowlist : List String) : Prop where
  bits : ∀ (offset : BitVec 64) (i : ℕ), i < 64 → ((maskAt allowlist offset).getLsbD i = true ↔
    ∃ a ∈ added, a.offset = offset ∧ a.beginBit ≤ i ∧ i ≤ a.endBit)
  controls : ∀ a ∈ added, ∀ mask ∈ a.masks, mask &&& ~~~maskAt allowlist a.offset = 0#64

/-- All shifts of both walks are defined, and the allowlist is exact. -/
def CoversExactly (p : Platform) (docs : List String) : Prop :=
  ∃ added data, parseAll p docs = .ok added ∧ allowAll p docs = .ok data ∧
    Exact added (formatAllowlist data)

/-- No writable field has 64 bits or more, nor starts out of the word, neither in the documents nor
as CPUID has it; and the last MSR at each offset has the bits of all controls at the offset as
writable ones and no others. -/
structure Fits (p : Platform) (docs : List String) : Prop where
  shifts : ∀ e ∈ entries p docs, ∀ f ∈ e.fields, f.isControl = true →
    ShiftsFit f.beginBit f.endBit ∧ (cpusOf p e ≠ [] → ShiftsFit f.beginBit f.controlEnd)
  bits : ∀ (offset : BitVec 64) (i : ℕ), i < 64 →
    ((∃ e, lastAt offset (entries p docs) = some e ∧
      ∃ f ∈ e.fields, f.isControl = true ∧ f.beginBit ≤ i ∧ (i : ℤ) ≤ f.endBit) ↔
    ∃ e ∈ entries p docs, e.offset = offset ∧ ∃ f ∈ e.fields, f.isControl = true ∧
      isMade p (cpusOf p e) e.offset f = true ∧ f.beginBit ≤ i ∧ (i : ℤ) ≤ f.controlEnd)

theorem mem_added {docs : List String} {a : Added} :
    a ∈ (entries p docs).flatMap (Entry.added p) ↔
      ∃ e ∈ entries p docs, ∃ f ∈ e.fields, f.isControl = true ∧
        isMade p (cpusOf p e) e.offset f = true ∧
        a = ⟨"MSR::" ++ f.name, e.offset, f.beginBit, f.controlEnd,
          List.replicate (cpusOf p e).length (Allowlist.bits f.beginBit f.controlEnd)⟩ := by
  simp only [mem_flatMap, Entry.added, addedBy, Bool.and_eq_true]
  refine exists_congr fun e => and_congr_right fun _ => exists_congr fun f =>
    and_congr_right fun _ => ?_
  split_ifs with h
  · simp [h.1, h.2]
  · simp only [not_mem_nil, false_iff, not_and]
    exact fun hcontrol hmade _ => h ⟨hcontrol, hmade⟩

theorem exact_iff {docs : List String}
    (hshifts : ∀ e ∈ entries p docs, ∀ f ∈ e.fields, f.isControl = true →
      ShiftsFit f.beginBit f.endBit ∧ (cpusOf p e ≠ [] → ShiftsFit f.beginBit f.controlEnd)) :
    Exact ((entries p docs).flatMap (Entry.added p))
      (formatAllowlist ((entries p docs).foldl allow [])) ↔ Fits p docs := by
  -- the bits of the allowlist are those of the last MSR at the offset
  have hlast : ∀ (offset : BitVec 64) (i : ℕ), i < 64 →
      ((maskAt (formatAllowlist ((entries p docs).foldl allow [])) offset).getLsbD i = true ↔
        ∃ e, lastAt offset (entries p docs) = some e ∧
          ∃ f ∈ e.fields, f.isControl = true ∧ f.beginBit ≤ i ∧ (i : ℤ) ≤ f.endBit) := by
    intro offset i hi
    rw [maskAt_formatAllowlist, lookup_allow]
    cases he : lastAt offset (entries p docs) with
    | none => simp
    | some e =>
      have hmem : e ∈ entries p docs := by
        obtain ⟨before, a, after, heq, ha, -⟩ := lastOf_eq_some_iff.mp he
        split_ifs at ha
        rw [heq, ← Option.some.inj ha]
        exact mem_append_right _ mem_cons_self
      have hmask := getLsbD_mask (e := e)
        (fun f hf hbad => hbad.2 (hshifts e hmem f hf hbad.1).1) hi
      simpa using hmask
  have hadded : ∀ (offset : BitVec 64) (i : ℕ), (∃ a ∈ (entries p docs).flatMap (Entry.added p),
      a.offset = offset ∧ a.beginBit ≤ i ∧ (i : ℤ) ≤ a.endBit) ↔
      ∃ e ∈ entries p docs, e.offset = offset ∧ ∃ f ∈ e.fields, f.isControl = true ∧
        isMade p (cpusOf p e) e.offset f = true ∧ f.beginBit ≤ i ∧ (i : ℤ) ≤ f.controlEnd := by
    intro offset i
    constructor
    · rintro ⟨a, ha, hoffset, hbegin, hend⟩
      obtain ⟨e, he, f, hf, hcontrol, hmade, rfl⟩ := mem_added.mp ha
      exact ⟨e, he, hoffset, f, hf, hcontrol, hmade, hbegin, hend⟩
    · rintro ⟨e, he, hoffset, f, hf, hcontrol, hmade, hbegin, hend⟩
      exact ⟨_, mem_added.mpr ⟨e, he, f, hf, hcontrol, hmade, rfl⟩, hoffset, hbegin, hend⟩
  constructor
  · intro h
    refine ⟨hshifts, fun offset i hi => ?_⟩
    rw [← hlast offset i hi, h.bits offset i hi, hadded offset i]
  · intro h
    have hbits : ∀ (offset : BitVec 64) (i : ℕ), i < 64 →
        ((maskAt (formatAllowlist ((entries p docs).foldl allow [])) offset).getLsbD i = true ↔
          ∃ a ∈ (entries p docs).flatMap (Entry.added p),
            a.offset = offset ∧ a.beginBit ≤ i ∧ (i : ℤ) ≤ a.endBit) := by
      intro offset i hi
      rw [hlast offset i hi, hadded offset i]
      exact h.bits offset i hi
    refine ⟨hbits, fun a ha mask hmask => ?_⟩
    obtain ⟨e, he, f, hf, hcontrol, hmade, rfl⟩ := mem_added.mp ha
    obtain ⟨hcpus, rfl⟩ := mem_replicate.mp hmask
    have hfit := (hshifts e he f hf hcontrol).2 fun hnil => hcpus (by rw [hnil]; rfl)
    rw [Mask.and_not_eq_zero_iff]
    intro i hi hbit
    rw [← BitVec.getLsbD_eq_getElem] at hbit ⊢
    obtain ⟨hbegin, hend⟩ := (getLsbD_bits hfit hi).mp hbit
    exact (hbits e.offset i hi).mpr ⟨_, ha, rfl, hbegin, hend⟩

/-- The object of a writable field. -/
def writableField (beginBit endBit : ℚ) : Json :=
  .object [("aggregation", .string "select_first"), ("begin_bit", .number (.num beginBit)),
    ("behavior", .string "variable"), ("end_bit", .number (.num endBit)),
    ("function", .string "scale"), ("scalar", .number (.num 1)), ("units", .string "none"),
    ("writeable", .bool true)]

/-- The object of an MSR of the offset 0x10 with one field. -/
def msrAt0x10 (fieldName : String) (field : Json) : Json :=
  .object [("domain", .string "cpu"), ("fields", .object [(fieldName, field)]),
    ("offset", .string "0x10")]

/-- The text of such an MSR. -/
def msrText (msrName fieldName beginBit endBit : String) : String :=
  "\"" ++ msrName ++ "\": \x7b\"offset\": \"0x10\", \"domain\": \"cpu\", \"fields\": \x7b\"" ++
    fieldName ++ "\": \x7b\"begin_bit\": " ++ beginBit ++ ", \"end_bit\": " ++ endBit ++
    ", \"function\": \"scale\", \"units\": \"none\", \"scalar\": 1, \"writeable\": true, " ++
    "\"behavior\": \"variable\", \"aggregation\": \"select_first\"\x7d\x7d\x7d"

/-- A machine with one CPU and no restrictions, and the value of a text. -/
def oneCpu (msrs : List (String × Json)) : Platform where
  parse _ := .ok (.object [("msrs", .object msrs)])
  isTrlWritableInAllDomains _ := .ok false
  domainNameToType _ := .ok 3
  isAggregation _ := true
  stringToUnits _ := .ok 0
  stringToBehavior _ := .ok 2
  cpus _ := .ok [0]
  systemWriteMask _ := .ok (BitVec.allOnes 64)
  rmidBitWidth := none
  pmcBitWidth := 48

end Geopm.Pio.Allowlist
