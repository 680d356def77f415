import Geopm.Pio.SaveControl

/-!
# Saved settings

A text of settings is read back by `SaveControlImp`, which checks the keys of each object and takes
the values through accessors of `json11` that return a default for a value of another type.

* `Describes` : an object has exactly the four fields, of the right types, and they are those of a
  setting; `Sound` : a text that is accepted is an array of such objects;
* `HasFields`, `Typed` : the keys of an object, and the types of its fields;
* `ofJson_eq_ok` : an object is accepted exactly when it has the keys;
* `savedSettings_iff` : the settings that were written are read back, and a text is read soundly
  exactly when the types are right, or the text is not accepted.
-/

namespace Geopm.Pio

open Prog
open List

namespace Json

/-- An integer that an `int` can hold. -/
def IsInt (j : Json) (n : ℤ) : Prop :=
  (j = .number (.num n) ∨ j = .number .negZero ∧ n = 0) ∧ -2 ^ 31 ≤ n ∧ n < 2 ^ 31

theorem IsInt.intValue_eq {j : Json} {n : ℤ} (h : j.IsInt n) : j.intValue = n := by
  obtain ⟨rfl | ⟨rfl, rfl⟩, -⟩ := h
  · simp [intValue]
  · rfl

end Json

namespace Setting

/-- The object has exactly the fields of the setting. -/
def Describes (fields : List (String × Json)) (ss : Setting) : Prop :=
  (fields.map Prod.fst).Perm requiredKeys ∧
    fields.lookup "name" = some (.string ss.name) ∧
    (∃ j, fields.lookup "domain_type" = some j ∧ j.IsInt ss.domainType) ∧
    (∃ j, fields.lookup "domain_idx" = some j ∧ j.IsInt ss.domainIdx) ∧
    fields.lookup "setting" = some (.number ss.setting)

/-- The keys of an object are the required ones. -/
def HasFields (fields : List (String × Json)) : Prop :=
  fields.length = requiredKeys.length ∧ ∀ rk ∈ requiredKeys, (fields.lookup rk).isSome

/-- The fields of an object have the right types. -/
def Typed (fields : List (String × Json)) : Prop :=
  (∃ name, fields.lookup "name" = some (.string name)) ∧
    (∃ j n, fields.lookup "domain_type" = some j ∧ j.IsInt n) ∧
    (∃ j n, fields.lookup "domain_idx" = some j ∧ j.IsInt n) ∧
    ∃ setting, fields.lookup "setting" = some (.number setting)

/-- The setting that `settings` makes of the fields. -/
def ofFields (fields : List (String × Json)) : Setting :=
  ⟨(Json.get fields "name").stringValue, (Json.get fields "domain_type").intValue,
    (Json.get fields "domain_idx").intValue, (Json.get fields "setting").numberValue⟩

variable {fields : List (String × Json)} {ss : Setting}

/-- An object is accepted exactly when its keys are the required ones. -/
theorem ofJson_eq_ok {j : Json} :
    ofJson j = .ok ss ↔ ∃ fields, j = .object fields ∧ HasFields fields ∧ ss = ofFields fields := by
  cases j with
  | object fields =>
    have hfind : requiredKeys.find? (fun rk => (fields.lookup rk).isNone) = none ↔
        ∀ rk ∈ requiredKeys, (fields.lookup rk).isSome := by
      simp [Option.isSome_iff_ne_none]
    simp only [ofJson, Json.object.injEq, exists_eq_left']
    by_cases hlength : fields.length = requiredKeys.length
    · rw [if_neg (not_not.mpr hlength)]
      cases hkey : requiredKeys.find? (fun rk => (fields.lookup rk).isNone) with
      | none =>
        have hfields : HasFields fields := ⟨hlength, hfind.mp hkey⟩
        simp only [Except.ok.injEq, hfields, true_and]
        exact eq_comm
      | some rk =>
        have hfields : ¬ HasFields fields := fun h => by
          rw [hfind.mpr h.2] at hkey
          cases hkey
        simp [hfields]
    · have hfields : ¬ HasFields fields := fun h => hlength h.1
      simp [hlength, hfields]
  | null | bool _ | number _ | string _ | array _ => simp [ofJson]

theorem HasFields.perm (h : HasFields fields) : (fields.map Prod.fst).Perm requiredKeys := by
  have hsubset : requiredKeys ⊆ fields.map Prod.fst := by
    intro rk hrk
    obtain ⟨p, hp, hkey⟩ := lookup_isSome_iff.mp (h.2 rk hrk)
    rw [eq_of_beq hkey]
    exact mem_map_of_mem hp
  have hsub : requiredKeys.Subperm (fields.map Prod.fst) :=
    subperm_of_subset (by decide) hsubset
  exact (hsub.perm_of_length_le (by rw [length_map, h.1])).symm

theorem get_of_lookup {key : String} {j : Json} (h : fields.lookup key = some j) :
    Json.get fields key = j := by
  rw [Json.get, h, Option.getD_some]

theorem describes_iff (h : HasFields fields) : Describes fields (ofFields fields) ↔ Typed fields := by
  constructor
  · rintro ⟨-, hname, ⟨j, hj, hint⟩, ⟨j', hj', hint'⟩, hsetting⟩
    exact ⟨⟨_, hname⟩, ⟨j, _, hj, hint⟩, ⟨j', _, hj', hint'⟩, _, hsetting⟩
  · rintro ⟨⟨name, hname⟩, ⟨j, n, hj, hint⟩, ⟨j', n', hj', hint'⟩, x, hsetting⟩
    have hfields : ofFields fields = ⟨name, n, n', x⟩ := by
      rw [ofFields, get_of_lookup hname, get_of_lookup hj, get_of_lookup hj',
        get_of_lookup hsetting, hint.intValue_eq, hint'.intValue_eq]
      rfl
    rw [hfields]
    exact ⟨h.perm, hname, ⟨j, hj, hint⟩, ⟨j', hj', hint'⟩, hsetting⟩

end Setting

namespace SaveControl

variable (json11 : Json11)

/-- A text that is accepted is an array of objects that describe the settings. -/
def Sound (text : String) : Prop :=
  ∀ settings, settingsOf json11 text = .ok settings → ∃ items : List (List (String × Json)),
    json11.parse text = .ok (.array (items.map .object)) ∧
      List.Forall₂ Setting.Describes items settings

/-- A text is not accepted, or the types of all fields are right. -/
def WellTyped (text : String) : Prop :=
  ∀ items : List (List (String × Json)), json11.parse text = .ok (.array (items.map .object)) →
    (∀ fields ∈ items, Setting.HasFields fields) → ∀ fields ∈ items, Setting.Typed fields

variable {json11}

theorem mapM_ofJson_eq_ok {items : List Json} {settings : List Setting} :
    items.mapM Setting.ofJson = .ok settings ↔ ∃ objects : List (List (String × Json)),
      items = objects.map .object ∧ (∀ fields ∈ objects, Setting.HasFields fields) ∧
        settings = objects.map Setting.ofFields := by
  rw [mapM_eq_ok]
  constructor
  · intro h
    induction h with
    | nil => exact ⟨[], rfl, fun _ h => (nomatch h), rfl⟩
    | cons hitem _ ih =>
      obtain ⟨fields, rfl, hfields, rfl⟩ := Setting.ofJson_eq_ok.mp hitem
      obtain ⟨objects, rfl, hobjects, rfl⟩ := ih
      exact ⟨fields :: objects, rfl, forall_mem_cons.mpr ⟨hfields, hobjects⟩, rfl⟩
  · rintro ⟨objects, rfl, hobjects, rfl⟩
    rw [forall₂_map_left_iff, forall₂_map_right_iff]
    exact forall₂_same.mpr fun fields hmem =>
      Setting.ofJson_eq_ok.mpr ⟨fields, rfl, hobjects fields hmem, rfl⟩

/-- A text is accepted when it is an array of objects with the required keys. -/
theorem settingsOf_eq_ok {text : String} {settings : List Setting} :
    settingsOf json11 text = .ok settings ↔ ∃ items : List (List (String × Json)),
      json11.parse text = .ok (.array (items.map .object)) ∧
        (∀ fields ∈ items, Setting.HasFields fields) ∧
        settings = items.map Setting.ofFields := by
  rw [settingsOf]
  cases json11.parse text with
  | error err => simp
  | ok j =>
    cases j with
    | array items =>
      simp only [Except.ok.injEq, Json.array.injEq]
      exact mapM_ofJson_eq_ok
    | null | bool _ | number _ | string _ | object _ => simp

theorem sound_iff (text : String) : Sound json11 text ↔ WellTyped json11 text := by
  constructor
  · intro hsound items hparse hfields
    obtain ⟨items', hparse', hdescribes⟩ :=
      hsound _ (settingsOf_eq_ok.mpr ⟨items, hparse, hfields, rfl⟩)
    have hobject : Function.Injective Json.object := fun _ _ => Json.object.inj
    rw [hparse, Except.ok.injEq, Json.array.injEq, hobject.list_map.eq_iff] at hparse'
    subst hparse'
    rw [forall₂_map_right_iff, forall₂_same] at hdescribes
    exact fun fields hmem => (Setting.describes_iff (hfields fields hmem)).mp (hdescribes fields hmem)
  · intro htyped settings hsettings
    obtain ⟨items, hparse, hfields, rfl⟩ := settingsOf_eq_ok.mp hsettings
    refine ⟨items, hparse, ?_⟩
    rw [forall₂_map_right_iff]
    exact forall₂_same.mpr fun fields hmem =>
      (Setting.describes_iff (hfields fields hmem)).mpr (htyped items hparse hfields fields hmem)

end SaveControl

open SaveControl in
/-- Settings that `json11` reads as it wrote them are read back, where they are finite. Any text is
read soundly exactly when the types are right or it is not accepted. -/
theorem savedSettings_iff (json11 : Json11) (settings : List Setting)
    (hinverse : json11.parse (json11.dump (settingsJson settings)) = .ok (settingsJson settings))
    (text : String) :
    settingsOf json11 (json11.dump (settingsJson settings)) = .ok (finiteOf settings) ∧
      (Sound json11 text ↔ WellTyped json11 text) := by
  refine ⟨?_, sound_iff text⟩
  rw [settingsOf, hinverse]
  change ((finiteOf settings).map Setting.json).mapM Setting.ofJson = _
  rw [mapM_eq_ok, forall₂_map_left_iff]
  exact forall₂_same.mpr fun ss _ => Setting.ofJson_json ss

/-- The text of an object whose last field has the given text. -/
def limitObject (setting : String) : String :=
  "[\x7b\"domain_idx\": 0, \"domain_type\": 0, \"name\": \"LIMIT\", \"setting\": " ++ setting ++
    "\x7d]"

/-- The fields of an object with the given last field. -/
def limitFields (setting : Json) : List (String × Json) :=
  [("domain_idx", .number (.num 0)), ("domain_type", .number (.num 0)), ("name", .string "LIMIT"),
    ("setting", setting)]

/-- The texts of a limit of one and of a limit that is a string, and their values. -/
def limitJson11 : Json11 where
  dump _ := limitObject "1"
  parse text :=
    if text = limitObject "1" then .ok (.array [.object (limitFields (.number (.num 1)))])
    else if text = limitObject "\"high\"" then .ok (.array [.object (limitFields (.string "high"))])
    else .error "expected value, got end of input (-1)"

open SaveControl in
theorem savedSettings_iff_limit :
    settingsOf limitJson11 (limitObject "1") = .ok [⟨"LIMIT", 0, 0, .num 1⟩] ∧
      Sound limitJson11 (limitObject "1") := by
  have hparse : limitJson11.parse (limitObject "1") =
      .ok (.array [.object (limitFields (.number (.num 1)))]) := by simp [limitJson11]
  obtain ⟨hread, hsound⟩ := savedSettings_iff limitJson11 [⟨"LIMIT", 0, 0, .num 1⟩] hparse
    (limitObject "1")
  refine ⟨hread, hsound.mpr fun items hitems _ fields hmem => ?_⟩
  rw [hparse] at hitems
  cases items with
  | nil => cases hitems
  | cons first rest =>
    cases rest with
    | nil =>
      cases hitems
      obtain rfl := mem_singleton.mp hmem
      exact ⟨⟨_, rfl⟩, ⟨_, 0, rfl, .inl rfl, by decide, by decide⟩,
        ⟨_, 0, rfl, .inl rfl, by decide, by decide⟩, _, rfl⟩
    | cons second rest => cases hitems

open SaveControl in
/-- A setting that is a string is read as zero. -/
theorem not_sound : ¬ ∀ (json11 : Json11) (text : String), Sound json11 text := by
  intro h
  have hne : limitObject "\"high\"" ≠ limitObject "1" := by decide +kernel
  have hparse : limitJson11.parse (limitObject "\"high\"") =
      .ok (.array [.object (limitFields (.string "high"))]) := by simp [limitJson11, hne]
  have hread : settingsOf limitJson11 (limitObject "\"high\"") =
      .ok [⟨"LIMIT", 0, 0, .num 0⟩] := by
    rw [settingsOf, hparse]
    rfl
  obtain ⟨items, hitems, hdescribes⟩ := h _ _ _ hread
  rw [hparse] at hitems
  cases items with
  | nil => cases hitems
  | cons first rest =>
    cases rest with
    | nil =>
      cases hitems
      obtain ⟨⟨-, -, -, -, hsetting⟩, -⟩ := forall₂_cons.mp hdescribes
      cases hsetting
    | cons second rest => cases hitems

end Geopm.Pio
