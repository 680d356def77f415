import Geopm.Lib.Text

/-!
# The requests of a batch server

`PlatformService.start_batch` writes the requests of a client to the standard input of the batch
server, one in a line, and `BatchServer::main` reads them.

* `startBatch`, `main` : the writer and the reader;
* `readLine_eq_some` : the request that a line is read as;
* `copyName_eq` : the buffer of the name is never found full, so a long name is cut off;
* `main_startBatch`, `main_singleton`, `carried_of_main` : the requests that arrive as they are;
* `readLines_eq_none` : a line that cannot be read makes the reader throw;
* `batchStream_exact` : when the stream and a line mean what they say.
-/

namespace Geopm.Pio.BatchStream

open Text
open List hiding set

/-- `geopm_request_s`, with the name as a text. -/
structure GeopmRequest where
  name : List Char
  domainType : CInt
  domainIdx : CInt
deriving DecidableEq

/-- `GEOPM_NAME_MAX` -/
def geopmNameMax : ℕ := 255

/-- The first word of a line. -/
def word (isRead : Bool) : List Char :=
  if isRead then ['r', 'e', 'a', 'd'] else ['w', 'r', 'i', 't', 'e']

/-- The line of a request. -/
def requestLine (isRead : Bool) (request : GeopmRequest) : List Char :=
  [' '].intercalate
    [word isRead, request.name, decimal request.domainType, decimal request.domainIdx]

/-! ### The writer -/

/-- What the service knows of a client. -/
structure Session where
  isActive : Bool
  signals : List (List Char)
  controls : List (List Char)
  isWriteMode : Bool
  hasBatchServer : Bool

/-- `start_batch`: the text for the batch server; `none` when the requests are refused. -/
def startBatch (session : Session) (signalConfig controlConfig : List GeopmRequest) :
    Option (List Char) :=
  if !session.isActive then none
  else if !(signalConfig.map (·.name)).all (session.signals.contains ·) then none
  else if !(controlConfig.map (·.name)).all (session.controls.contains ·) then none
  else if controlConfig.length ≠ 0 && !session.isWriteMode then none
  else if session.hasBatchServer then none
  else some (unlines
    (signalConfig.map (requestLine true) ++ controlConfig.map (requestLine false) ++ [[]]))

/-! ### The reader -/

/-- `std::strncpy` : no more than `count` characters, and as many in all, the last ones `NUL`. -/
def strncpy (dest src : List Char) (count : ℕ) : List Char :=
  let copied := (src.takeWhile (· ≠ '\x00')).take count
  copied ++ List.replicate (count - copied.length) '\x00' ++ dest.drop count

/-- The name is copied to its buffer; `none` when the last character there is not `NUL`. -/
def copyName (name : List Char) : Option (List Char) :=
  let nameMax := geopmNameMax
  let buffer := strncpy (List.replicate nameMax '\x00') name (nameMax - 1)
  if buffer[nameMax - 1]? ≠ some '\x00' then none else some (buffer.takeWhile (· ≠ '\x00'))

/-- The first word is `read` or `write`. -/
def parseWord (text : List Char) : Option Bool :=
  if text = word true then some true else if text = word false then some false else none

/-- One turn of the loop of `main`, for a line that is not empty; `none` when it throws. -/
def readLine (inputLine : List Char) : Option (Bool × GeopmRequest) :=
  match split ' ' inputLine with
  | [first, name, domainType, domainIdx] => do
    let isRead ← parseWord first
    let domainType ← stoi domainType
    let domainIdx ← stoi domainIdx
    let name ← copyName name
    return (isRead, ⟨name, domainType, domainIdx⟩)
  | _ => none

/-- The loop of `main`. -/
def readLines : List (List Char) → List GeopmRequest → List GeopmRequest →
    Option (List GeopmRequest × List GeopmRequest)
  | [], signalConfig, controlConfig => some (signalConfig, controlConfig)
  | inputLine :: rest, signalConfig, controlConfig =>
    if inputLine = [] then some (signalConfig, controlConfig)
    else
      match readLine inputLine with
      | none => none
      | some (true, request) => readLines rest (signalConfig ++ [request]) controlConfig
      | some (false, request) => readLines rest signalConfig (controlConfig ++ [request])

/-- `BatchServer::main`: the requests that the batch server is made with; `none` when it throws. -/
def main (inputStream : List Char) : Option (List GeopmRequest × List GeopmRequest) :=
  readLines (getlines inputStream) [] []

/-! ### Names -/

/-- A name that a line can carry: it is one field, and it fits into the buffer. -/
structure Carried (name : List Char) : Prop where
  noSpace : ' ' ∉ name
  noNewline : '\n' ∉ name
  noNul : '\x00' ∉ name
  length_lt : name.length < geopmNameMax

section Names

variable {name : List Char}

/-- **The buffer is never found full**: the last character is not one of those that are copied. -/
theorem copyName_eq (name : List Char) :
    copyName name = some ((name.takeWhile (· ≠ '\x00')).take (geopmNameMax - 1)) := by
  set copied := (name.takeWhile (· ≠ '\x00')).take (geopmNameMax - 1) with hcopied
  have hlength : copied.length ≤ geopmNameMax - 1 := length_take_le _ _
  have hne : ∀ c ∈ copied, decide (c ≠ '\x00') = true := by
    intro c hc
    exact mem_takeWhile_imp (p := fun c => decide (c ≠ '\x00')) (mem_of_mem_take hc)
  have hbuffer : strncpy (List.replicate geopmNameMax '\x00') name (geopmNameMax - 1) =
      copied ++ List.replicate (geopmNameMax - 1 - copied.length + 1) '\x00' := by
    have hdrop : (List.replicate geopmNameMax '\x00').drop (geopmNameMax - 1) = ['\x00'] := rfl
    unfold strncpy
    rw [hdrop, ← hcopied, append_assoc, replicate_succ']
  have hlast : (copied ++ List.replicate (geopmNameMax - 1 - copied.length + 1)
      '\x00')[geopmNameMax - 1]? = some '\x00' := by
    rw [getElem?_append_right hlength, getElem?_replicate, if_pos (Nat.lt_succ_self _)]
  unfold copyName
  dsimp only
  rw [hbuffer, hlast, if_neg (not_not.mpr rfl), takeWhile_append_of_pos hne,
    replicate_succ, takeWhile_cons_of_neg (by decide), append_nil]

theorem takeWhile_of_noNul (h : '\x00' ∉ name) : name.takeWhile (· ≠ '\x00') = name := by
  refine takeWhile_eq_self_iff.mpr fun c hc => decide_eq_true ?_
  rintro rfl
  exact h hc

theorem copyName_of_carried (h : Carried name) : copyName name = some name := by
  rw [copyName_eq, takeWhile_of_noNul h.noNul,
    take_of_length_le (Nat.le_sub_one_of_lt h.length_lt)]

theorem Carried.of_copyName {field : List Char} (hspace : ' ' ∉ field) (hnewline : '\n' ∉ field)
    (h : copyName field = some name) : Carried name := by
  rw [copyName_eq] at h
  cases h
  have hmem : ∀ c ∈ (field.takeWhile (· ≠ '\x00')).take (geopmNameMax - 1),
      c ∈ field ∧ c ≠ '\x00' := by
    intro c hc
    have hc := mem_of_mem_take hc
    exact ⟨(takeWhile_subset _) hc, of_decide_eq_true
      (mem_takeWhile_imp (p := fun c => decide (c ≠ '\x00')) hc)⟩
  refine ⟨fun h => hspace (hmem _ h).1, fun h => hnewline (hmem _ h).1,
    fun h => (hmem _ h).2 rfl, ?_⟩
  refine (length_take_le _ _).trans_lt ?_
  decide

end Names

/-! ### Lines -/

section Lines

variable {isRead : Bool} {request : GeopmRequest} {inputLine : List Char}

theorem parseWord_word (isRead : Bool) : parseWord (word isRead) = some isRead := by
  cases isRead <;> rfl

theorem parseWord_eq_some {text : List Char} (h : parseWord text = some isRead) :
    text = word isRead := by
  unfold parseWord at h
  split_ifs at h with hread hwrite
  · cases h
    exact hread
  · cases h
    exact hwrite

/-- **The request that a line is read as**: its fields, the numbers as far as they go, and the name
as far as it fits. -/
theorem readLine_eq_some :
    readLine inputLine = some (isRead, request) ↔
      ∃ name domainType domainIdx,
        split ' ' inputLine = [word isRead, name, domainType, domainIdx] ∧
          copyName name = some request.name ∧ stoi domainType = some request.domainType ∧
            stoi domainIdx = some request.domainIdx := by
  constructor
  · intro h
    unfold readLine at h
    split at h
    · next first name domainType domainIdx hsplit =>
      obtain ⟨read, hword, h⟩ := Option.bind_eq_some_iff.mp h
      obtain ⟨type, htype, h⟩ := Option.bind_eq_some_iff.mp h
      obtain ⟨idx, hidx, h⟩ := Option.bind_eq_some_iff.mp h
      obtain ⟨copied, hname, h⟩ := Option.bind_eq_some_iff.mp h
      cases h
      exact ⟨name, domainType, domainIdx, parseWord_eq_some hword ▸ hsplit, hname, htype, hidx⟩
    · cases h
  · rintro ⟨name, domainType, domainIdx, hsplit, hname, htype, hidx⟩
    unfold readLine
    rw [hsplit]
    dsimp only
    rw [parseWord_word, htype, hidx, hname]
    rfl

theorem split_requestLine (h : ' ' ∉ request.name) :
    split ' ' (requestLine isRead request) =
      [word isRead, request.name, decimal request.domainType, decimal request.domainIdx] := by
  refine split_intercalate ?_ (cons_ne_nil _ _) (by simp)
  have hword : ' ' ∉ word isRead := by cases isRead <;> decide
  have hdecimal : ∀ n : ℤ, ' ' ∉ decimal n := fun n => not_mem_decimal (by decide) (by decide)
  simp only [forall_mem_cons]
  exact ⟨hword, h, hdecimal _, hdecimal _, fun piece hpiece => absurd hpiece not_mem_nil⟩

theorem readLine_requestLine (h : Carried request.name) :
    readLine (requestLine isRead request) = some (isRead, request) :=
  readLine_eq_some.mpr ⟨_, _, _, split_requestLine h.noSpace, copyName_of_carried h,
    stoi_decimal _, stoi_decimal _⟩

theorem requestLine_ne_nil : requestLine isRead request ≠ [] := by
  cases isRead <;> simp [requestLine, word]

theorem not_mem_requestLine (h : '\n' ∉ request.name) : '\n' ∉ requestLine isRead request := by
  have hword : '\n' ∉ word isRead := by cases isRead <;> decide
  have hdecimal : ∀ n : ℤ, '\n' ∉ decimal n := fun n => not_mem_decimal (by decide) (by decide)
  simp [requestLine, List.intercalate, hword, h, hdecimal]

theorem carried_of_readLine (hline : '\n' ∉ inputLine)
    (h : readLine inputLine = some (isRead, request)) : Carried request.name := by
  obtain ⟨name, domainType, domainIdx, hsplit, hname, -, -⟩ := readLine_eq_some.mp h
  have hmem : name ∈ split ' ' inputLine := by
    rw [hsplit]
    simp
  obtain ⟨hspace, hsub⟩ := mem_split hmem
  exact .of_copyName hspace (fun hnewline => hline (hsub _ hnewline)) hname

end Lines

/-! ### Streams -/

section Streams

variable {lines : List (List Char)} {signals controls : List GeopmRequest}
  {result : List GeopmRequest × List GeopmRequest}

theorem readLines_requestLines {requests : List GeopmRequest} (isRead : Bool)
    (h : ∀ request ∈ requests, Carried request.name) :
    readLines (requests.map (requestLine isRead) ++ lines) signals controls =
      if isRead then readLines lines (signals ++ requests) controls
      else readLines lines signals (controls ++ requests) := by
  induction requests generalizing signals controls with
  | nil => simp
  | cons request rest ih =>
    have hrest := fun r hr => h r (mem_cons_of_mem request hr)
    rw [map_cons, cons_append, readLines, if_neg requestLine_ne_nil,
      readLine_requestLine (h request mem_cons_self)]
    cases isRead with
    | true => simp [ih hrest]
    | false => simp [ih hrest]

theorem carried_of_readLines (hlines : ∀ line ∈ lines, '\n' ∉ line)
    (h : ∀ request ∈ signals ++ controls, Carried request.name)
    (hresult : readLines lines signals controls = some result) :
    ∀ request ∈ result.1 ++ result.2, Carried request.name := by
  induction lines generalizing signals controls with
  | nil =>
    cases hresult
    exact h
  | cons line rest ih =>
    unfold readLines at hresult
    split_ifs at hresult
    · cases hresult
      exact h
    · have hrest := fun l hl => hlines l (mem_cons_of_mem line hl)
      have hread : ∀ isRead request, readLine line = some (isRead, request) →
          Carried request.name := fun _ _ => carried_of_readLine (hlines line mem_cons_self)
      split at hresult
      · cases hresult
      all_goals
        next request hline =>
        refine ih hrest (fun r hr => ?_) hresult
        simp only [mem_append, mem_singleton] at h hr
        obtain rfl | hr : r = request ∨ (r ∈ signals ∨ r ∈ controls) := by tauto
        · exact hread _ _ hline
        · exact h r hr

theorem readLines_eq_none {line : List Char} (hmem : line ∈ lines.takeWhile (· ≠ []))
    (hline : readLine line = none) : readLines lines signals controls = none := by
  induction lines generalizing signals controls with
  | nil => exact absurd hmem not_mem_nil
  | cons first rest ih =>
    unfold readLines
    by_cases hnil : first = []
    · rw [takeWhile_cons_of_neg (by simpa using hnil)] at hmem
      exact absurd hmem not_mem_nil
    · rw [takeWhile_cons_of_pos (by simpa using hnil)] at hmem
      rw [if_neg hnil]
      obtain rfl | hmem := mem_cons.mp hmem
      · rw [hline]
      · split
        · rfl
        · exact ih hmem
        · exact ih hmem

/-- **A line that cannot be read makes the reader throw.** -/
theorem main_startBatch {session : Session} {inputStream : List Char}
    (hstart : startBatch session signals controls = some inputStream)
    (h : ∀ request ∈ signals ++ controls, Carried request.name) :
    main inputStream = some (signals, controls) := by
  have hsignals := fun r hr => h r (mem_append_left controls hr)
  have hcontrols := fun r hr => h r (mem_append_right signals hr)
  have hlines : ∀ line ∈
      signals.map (requestLine true) ++ controls.map (requestLine false) ++ [[]],
      '\n' ∉ line := by
    intro line hline
    simp only [mem_append, mem_map, mem_singleton] at hline
    obtain (⟨r, hr, rfl⟩ | ⟨r, hr, rfl⟩) | rfl := hline
    · exact not_mem_requestLine (hsignals r hr).noNewline
    · exact not_mem_requestLine (hcontrols r hr).noNewline
    · exact not_mem_nil
  unfold startBatch at hstart
  split_ifs at hstart
  cases hstart
  unfold main
  rw [getlines_unlines hlines, append_assoc, readLines_requestLines true hsignals, if_pos rfl,
    readLines_requestLines false hcontrols, if_neg Bool.false_ne_true]
  rfl

theorem main_singleton {request : GeopmRequest} (hspace : ' ' ∉ request.name)
    (hnewline : '\n' ∉ request.name) (hnul : '\x00' ∉ request.name) :
    main (unlines [requestLine true request, []]) =
      some ([{ request with name := request.name.take (geopmNameMax - 1) }], []) := by
  have hlines : getlines (unlines [requestLine true request, []]) =
      [requestLine true request, []] := by
    refine getlines_unlines fun line hline => ?_
    obtain rfl | hline := mem_cons.mp hline
    · exact not_mem_requestLine hnewline
    · rw [mem_singleton.mp hline]
      exact not_mem_nil
  have hread : readLine (requestLine true request) =
      some (true, { request with name := request.name.take (geopmNameMax - 1) }) := by
    refine readLine_eq_some.mpr ⟨_, _, _, split_requestLine hspace, ?_, stoi_decimal _,
      stoi_decimal _⟩
    rw [copyName_eq, takeWhile_of_noNul hnul]
  unfold main
  rw [hlines, readLines, if_neg requestLine_ne_nil, hread]
  rfl

theorem carried_of_main {inputStream : List Char} (h : main inputStream = some result) :
    ∀ request ∈ result.1 ++ result.2, Carried request.name :=
  carried_of_readLines (fun _ => not_mem_of_mem_getlines)
    (fun _ hr => absurd hr not_mem_nil) h

end Streams

/-! ### What a line means -/

/-- A line with the fields of a request and two numbers that `stoi` does not refuse has nothing but
a number in these fields, and a name that fits into the buffer. -/
def ExactIfRead (inputLine : List Char) : Prop :=
  ∀ isRead name domainType domainIdx,
    split ' ' inputLine = [word isRead, name, domainType, domainIdx] →
      (stoi domainType).isSome → (stoi domainIdx).isSome →
        ('\x00' ∉ name ∧ name.length < geopmNameMax) ∧
          (∃ n : CInt, domainType = decimal n) ∧ ∃ n : CInt, domainIdx = decimal n

/-- A line that is read, and that is exact, is the line of the request. -/
theorem eq_requestLine {inputLine : List Char} {isRead : Bool} {request : GeopmRequest}
    (hline : '\n' ∉ inputLine) (hexact : ExactIfRead inputLine)
    (h : readLine inputLine = some (isRead, request)) :
    Carried request.name ∧ inputLine = requestLine isRead request := by
  refine ⟨carried_of_readLine hline h, ?_⟩
  obtain ⟨name, domainType, domainIdx, hsplit, hname, htype, hidx⟩ := readLine_eq_some.mp h
  obtain ⟨⟨hnul, hlength⟩, ⟨type, rfl⟩, ⟨idx, rfl⟩⟩ :=
    hexact _ _ _ _ hsplit (htype ▸ rfl) (hidx ▸ rfl)
  have hmem : name ∈ split ' ' inputLine := by
    rw [hsplit]
    simp
  obtain ⟨hspace, hsub⟩ := mem_split hmem
  rw [copyName_of_carried ⟨hspace, fun hc => hline (hsub _ hc), hnul, hlength⟩] at hname
  rw [stoi_decimal] at htype hidx
  cases hname
  cases htype
  cases hidx
  rw [← intercalate_split ' ' inputLine, hsplit]
  rfl

theorem exactIfRead_requestLine {isRead : Bool} {request : GeopmRequest}
    (h : Carried request.name) : ExactIfRead (requestLine isRead request) := by
  intro read name domainType domainIdx hsplit _ _
  rw [split_requestLine h.noSpace] at hsplit
  simp only [List.cons.injEq, and_true] at hsplit
  obtain ⟨-, rfl, rfl, rfl⟩ := hsplit
  exact ⟨⟨h.noNul, h.length_lt⟩, ⟨_, rfl⟩, ⟨_, rfl⟩⟩

/-- **When the stream and its lines mean what they say.**  The requests that `start_batch` accepts
arrive as they are just when all of their names can be carried; and a line that is not the line of a
request makes the reader throw just when it is exact if it is read. -/
theorem batchStream_exact (session : Session) (signalConfig controlConfig : List GeopmRequest)
    (inputStream : List Char)
    (hstart : startBatch session signalConfig controlConfig = some inputStream) :
    (main inputStream = some (signalConfig, controlConfig) ↔
        ∀ request ∈ signalConfig ++ controlConfig, Carried request.name) ∧
      ∀ inputLine, inputLine ≠ [] → '\n' ∉ inputLine →
        (((∀ isRead request, Carried request.name → inputLine ≠ requestLine isRead request) →
            ∀ stream, inputLine ∈ (getlines stream).takeWhile (· ≠ []) → main stream = none) ↔
          ExactIfRead inputLine) := by
  refine ⟨⟨carried_of_main, main_startBatch hstart⟩, fun inputLine hne hline => ?_⟩
  constructor
  · intro hthrow
    by_cases hrequest : ∃ isRead request, Carried request.name ∧
        inputLine = requestLine isRead request
    · obtain ⟨isRead, request, hcarried, rfl⟩ := hrequest
      exact exactIfRead_requestLine hcarried
    · intro isRead name domainType domainIdx hsplit htype hidx
      obtain ⟨type, htype⟩ := Option.isSome_iff_exists.mp htype
      obtain ⟨idx, hidx⟩ := Option.isSome_iff_exists.mp hidx
      -- the line alone is a stream that is read
      have hread : readLine inputLine = some (isRead, ⟨_, type, idx⟩) :=
        readLine_eq_some.mpr ⟨name, domainType, domainIdx, hsplit, copyName_eq name, htype, hidx⟩
      have hlines : getlines (unlines [inputLine]) = [inputLine] :=
        getlines_unlines (by simpa using hline)
      have hnone := hthrow (fun r request hc h => hrequest ⟨r, request, hc, h⟩)
        (unlines [inputLine]) (by simp [hlines, hne])
      unfold main at hnone
      rw [hlines, readLines, if_neg hne, hread] at hnone
      cases isRead <;> cases hnone
  · intro hexact hnot stream hmem
    refine readLines_eq_none hmem ?_
    by_contra hsome
    obtain ⟨⟨isRead, request⟩, hread⟩ := Option.ne_none_iff_exists'.mp hsome
    obtain ⟨hcarried, heq⟩ := eq_requestLine hline hexact hread
    exact hnot isRead request hcarried heq

/-- A client that may read one signal and may not write. -/
def readerOf (name : List Char) : Session where
  isActive := true
  signals := [name]
  controls := []
  isWriteMode := false
  hasBatchServer := false

theorem batchStream_exact_a :
    let requests : List GeopmRequest := [⟨['A'], ⟨2, by decide⟩, ⟨-1, by decide⟩⟩]
    main "read A 2 -1\n\n".toList = some (requests, []) ↔
      ∀ request ∈ requests ++ [], Carried request.name := by
  intro requests
  exact (batchStream_exact (readerOf ['A']) requests [] _ rfl).1

/-- What follows a number is ignored, and a long name is cut off. -/
theorem not_batchStream_exact :
    (main "read A 2x 0\n".toList = some ([⟨['A'], ⟨2, by decide⟩, ⟨0, by decide⟩⟩], []) ∧
      ∀ isRead request, Carried request.name → "read A 2x 0".toList ≠ requestLine isRead request) ∧
    ∃ request inputStream, startBatch (readerOf request.name) [request] [] = some inputStream ∧
      main inputStream =
        some ([⟨request.name.take 254, request.domainType, request.domainIdx⟩], []) ∧
      main inputStream ≠ some ([request], []) := by
  refine ⟨⟨by decide +kernel, ?_⟩, ?_⟩
  · intro isRead request hcarried h
    have hsplit : split ' ' (requestLine isRead request) = _ :=
      split_requestLine hcarried.noSpace
    rw [← h] at hsplit
    have htype : ['2', 'x'] = decimal request.domainType := (List.cons.inj (List.cons.inj
      (List.cons.inj hsplit).2).2).1
    have hx : 'x' ∉ decimal request.domainType := not_mem_decimal (by decide) (by decide)
    rw [← htype] at hx
    exact hx (by decide)
  · set request : GeopmRequest := ⟨List.replicate 255 'A', ⟨0, by decide⟩, ⟨0, by decide⟩⟩
    have hname : ∀ c ≠ 'A', c ∉ request.name := fun c hc h => hc (eq_of_mem_replicate h)
    refine ⟨request, _, ?_, main_singleton (hname _ (by decide)) (hname _ (by decide))
      (hname _ (by decide)), fun h => ?_⟩
    · simp [startBatch, readerOf]
    · have hlength := (carried_of_main h request (by simp)).length_lt
      rw [length_replicate] at hlength
      exact absurd hlength (by decide)

end Geopm.Pio.BatchStream
