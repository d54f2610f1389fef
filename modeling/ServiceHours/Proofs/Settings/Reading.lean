import Mathlib.Logic.Function.Basic
import ServiceHours.Proofs.Settings.Offset
import ServiceHours.Settings

/-!
# What settings depend on

Settings are read from six variables (`Settings.variableNames`).

* A variable counts with its value without blanks around it, if there is one (`Given`, `Unset`).
* `ZoneGiven` and `TimeoutGiven` say what the variables give for the zone and for the deadline, faults included, and
  that is what is read (`readZone_eq_iff`, `readTimeout_eq_iff`).
* Sources that agree on the six values have the same settings, and behind a zone the offset does not count
  (`readWith_depends`).
* What follows the minutes of an offset is dropped (`readWith_followed`).
-/

namespace ServiceHours.Settings

def variableNames : List String :=
  ["OH_TAG_NAME", "OH_TIME_ZONE", "OH_UTC_OFFSET", "OH_PLAN_FILE", "OH_PROFILE", "OH_CALL_TIMEOUT_MS"]

/-- The variable has this value, perhaps with blanks around it, and it is not blank. -/
def Given (lookup : String → Option String) (name value : String) : Prop :=
  value ≠ "" ∧ ∃ raw, lookup name = some raw ∧ Text.Padded raw.toList value.toList

/-- The variable has no value or a blank one. -/
def Unset (lookup : String → Option String) (name : String) : Prop :=
  ∀ raw, lookup name = some raw → ∀ c ∈ raw.toList, Text.isBlank c = true

/-- In both sources the variable is not set, or it has the same value apart from blanks around it. -/
def Agree (lookup other : String → Option String) (name : String) : Prop :=
  Unset lookup name ∧ Unset other name ∨ ∃ value, Given lookup name value ∧ Given other name value

/-- The zone that the variables give, or what is wrong with it. A zone with a name comes before an offset. -/
inductive ZoneGiven (named? : String → Option NamedZone) (lookup : String → Option String) :
    Except SettingsError Zone → Prop
  | named {name : String} {zone : NamedZone} (h : Given lookup "OH_TIME_ZONE" name) (hname : named? name = some zone) :
    ZoneGiven named? lookup (.ok (.named zone))
  | unknown {name : String} (h : Given lookup "OH_TIME_ZONE" name) (hname : named? name = none) :
    ZoneGiven named? lookup (.error (.unknownZone name))
  | fixed {text : String} {seconds : Int} (hunset : Unset lookup "OH_TIME_ZONE") (h : Given lookup "OH_UTC_OFFSET" text)
    (hsay : Offset.Says text.toList seconds) : ZoneGiven named? lookup (.ok (.fixed seconds))
  | badOffset {text : String} (hunset : Unset lookup "OH_TIME_ZONE") (h : Given lookup "OH_UTC_OFFSET" text)
    (hnot : ∀ seconds, ¬Offset.Says text.toList seconds) : ZoneGiven named? lookup (.error (.badOffset text))
  | host (hunset : Unset lookup "OH_TIME_ZONE") (hunset' : Unset lookup "OH_UTC_OFFSET") :
    ZoneGiven named? lookup (.ok .host)

/-- The deadline that the variables give, or what is wrong with it: a number that is not too large, or none. -/
inductive TimeoutGiven (lookup : String → Option String) : Except SettingsError (Option Nat) → Prop
  | given {text : String} {ms : Nat} (h : Given lookup "OH_CALL_TIMEOUT_MS" text)
    (hnumeral : Text.Numeral text.toList ms) (hle : ms ≤ maxTimeout) : TimeoutGiven lookup (.ok (some ms))
  | bad {text : String} (h : Given lookup "OH_CALL_TIMEOUT_MS" text)
    (hnot : ∀ ms, Text.Numeral text.toList ms → maxTimeout < ms) : TimeoutGiven lookup (.error (.badTimeout text))
  | unset (hunset : Unset lookup "OH_CALL_TIMEOUT_MS") : TimeoutGiven lookup (.ok none)

variable {named? : String → Option NamedZone} {lookup other : String → Option String} {name value : String}

/-! ### Values -/

private theorem trimmed_eq_iff {raw : String} : Text.trimmed raw = value ↔ Text.Padded raw.toList value.toList := by
  rw [← Text.trim_eq_iff, Text.trimmed, ← String.toList_inj, String.toList_ofList]

private theorem setting?_eq_some_iff : setting? lookup name = some value ↔ Given lookup name value := by
  rw [setting?, Option.filter_eq_some_iff, Option.map_eq_some_iff, decide_eq_true_eq, and_comm, Given]
  simp only [trimmed_eq_iff]

private theorem setting?_eq_none_iff : setting? lookup name = none ↔ Unset lookup name := by
  have hblank (raw : String) : Text.trimmed raw = "" ↔ ∀ c ∈ raw.toList, Text.isBlank c = true := by
    rw [trimmed_eq_iff]
    constructor
    · rintro ⟨left, right, hraw, hblank, -⟩
      rw [hraw]
      simpa using hblank
    · intro h
      exact ⟨raw.toList, [], by simp, by simpa using h, nofun, nofun⟩
  rw [setting?, Option.filter_eq_none_iff, Unset]
  simp [hblank]

private theorem agree_iff : Agree lookup other name ↔ setting? lookup name = setting? other name := by
  simp only [Agree, ← setting?_eq_some_iff, ← setting?_eq_none_iff]
  cases setting? lookup name <;> cases setting? other name <;> simp [eq_comm]

/-! ### Zone and deadline -/

private theorem zoneGiven (named? : String → Option NamedZone) (lookup : String → Option String) :
    ZoneGiven named? lookup (readZone named? (setting? lookup "OH_TIME_ZONE") (setting? lookup "OH_UTC_OFFSET")) := by
  cases hname : setting? lookup "OH_TIME_ZONE" with
  | some name =>
    rw [readZone]
    cases hzone : named? name with
    | some zone => exact .named (setting?_eq_some_iff.mp hname) hzone
    | none => exact .unknown (setting?_eq_some_iff.mp hname) hzone
  | none =>
    have hunset := setting?_eq_none_iff.mp hname
    cases htext : setting? lookup "OH_UTC_OFFSET" with
    | some text =>
      rw [readZone]
      cases hread : readOffset? text with
      | some seconds => exact .fixed hunset (setting?_eq_some_iff.mp htext) (Offset.readOffset?_eq_some_iff.mp hread)
      | none =>
        refine .badOffset hunset (setting?_eq_some_iff.mp htext) fun seconds hsay => ?_
        rw [← Offset.readOffset?_eq_some_iff, hread] at hsay
        cases hsay
    | none => exact .host hunset (setting?_eq_none_iff.mp htext)

private theorem ZoneGiven.eq {result : Except SettingsError Zone} (h : ZoneGiven named? lookup result) :
    readZone named? (setting? lookup "OH_TIME_ZONE") (setting? lookup "OH_UTC_OFFSET") = result := by
  cases h with
  | named h hname => rw [setting?_eq_some_iff.mpr h, readZone, hname]
  | unknown h hname => rw [setting?_eq_some_iff.mpr h, readZone, hname]
  | fixed hunset h hsay =>
    rw [setting?_eq_none_iff.mpr hunset, setting?_eq_some_iff.mpr h, readZone,
      Offset.readOffset?_eq_some_iff.mpr hsay]
  | @badOffset text hunset h hnot =>
    have hread : readOffset? text = none := Option.eq_none_iff_forall_ne_some.mpr fun seconds hseconds =>
      hnot seconds (Offset.readOffset?_eq_some_iff.mp hseconds)
    rw [setting?_eq_none_iff.mpr hunset, setting?_eq_some_iff.mpr h, readZone, hread]
  | host hunset hunset' => rw [setting?_eq_none_iff.mpr hunset, setting?_eq_none_iff.mpr hunset', readZone]

theorem readZone_eq_iff {result : Except SettingsError Zone} :
    readZone named? (setting? lookup "OH_TIME_ZONE") (setting? lookup "OH_UTC_OFFSET") = result ↔
      ZoneGiven named? lookup result :=
  ⟨fun h => h ▸ zoneGiven named? lookup, ZoneGiven.eq⟩

private theorem timeoutGiven (lookup : String → Option String) :
    TimeoutGiven lookup (readTimeout (setting? lookup "OH_CALL_TIMEOUT_MS")) := by
  cases htext : setting? lookup "OH_CALL_TIMEOUT_MS" with
  | some text =>
    rw [readTimeout]
    cases hread : Text.natural? maxTimeout text.toList with
    | some ms =>
      obtain ⟨hnumeral, hle⟩ := Text.natural?_eq_some_iff.mp hread
      exact .given (setting?_eq_some_iff.mp htext) hnumeral hle
    | none => exact .bad (setting?_eq_some_iff.mp htext) (Text.natural?_eq_none_iff.mp hread)
  | none => exact .unset (setting?_eq_none_iff.mp htext)

private theorem TimeoutGiven.eq {result : Except SettingsError (Option Nat)} (h : TimeoutGiven lookup result) :
    readTimeout (setting? lookup "OH_CALL_TIMEOUT_MS") = result := by
  cases h with
  | given h hnumeral hle =>
    rw [setting?_eq_some_iff.mpr h, readTimeout, Text.natural?_eq_some_iff.mpr ⟨hnumeral, hle⟩]
  | bad h hnot => rw [setting?_eq_some_iff.mpr h, readTimeout, Text.natural?_eq_none_iff.mpr hnot]
  | unset hunset => rw [setting?_eq_none_iff.mpr hunset, readTimeout]

theorem readTimeout_eq_iff {result : Except SettingsError (Option Nat)} :
    readTimeout (setting? lookup "OH_CALL_TIMEOUT_MS") = result ↔ TimeoutGiven lookup result :=
  ⟨fun h => h ▸ timeoutGiven lookup, TimeoutGiven.eq⟩

/-! ### All settings -/

/-- A fault of the zone is found before one of the deadline. -/
private theorem readWith_eq_error_iff {e : SettingsError} : readWith named? lookup = .error e ↔
    ZoneGiven named? lookup (.error e) ∨
      TimeoutGiven lookup (.error e) ∧ ∀ fault, ¬ZoneGiven named? lookup (.error fault) := by
  simp only [← readZone_eq_iff, ← readTimeout_eq_iff, readWith]
  cases readZone named? (setting? lookup "OH_TIME_ZONE") (setting? lookup "OH_UTC_OFFSET") with
  | error fault =>
    constructor
    · rintro ⟨⟩
      exact Or.inl rfl
    · rintro (⟨⟨⟩⟩ | ⟨-, hnone⟩)
      · rfl
      · exact absurd rfl (hnone fault)
  | ok zone =>
    rw [or_iff_right nofun, and_iff_left fun fault => nofun]
    cases readTimeout (setting? lookup "OH_CALL_TIMEOUT_MS") with
    | error fault =>
      constructor
      · rintro ⟨⟩
        rfl
      · rintro ⟨⟩
        rfl
    | ok callTimeout => exact iff_of_false nofun nofun

private theorem readWith_ok {settings : Settings} (h : readWith named? lookup = .ok settings) :
    ZoneGiven named? lookup (.ok settings.zone) ∧ TimeoutGiven lookup (.ok settings.callTimeout) := by
  rw [← readZone_eq_iff, ← readTimeout_eq_iff]
  rw [readWith] at h
  cases hzone : readZone named? (setting? lookup "OH_TIME_ZONE") (setting? lookup "OH_UTC_OFFSET") with
  | error fault =>
    rw [hzone] at h
    cases h
  | ok zone =>
    cases htimeout : readTimeout (setting? lookup "OH_CALL_TIMEOUT_MS") with
    | error fault =>
      rw [hzone, htimeout] at h
      cases h
    | ok callTimeout =>
      rw [hzone, htimeout] at h
      cases h
      exact ⟨rfl, rfl⟩

/-- If both sources give the same for the zone, they need not agree on the offset. -/
private theorem readWith_congr
    (hzone : readZone named? (setting? other "OH_TIME_ZONE") (setting? other "OH_UTC_OFFSET") =
      readZone named? (setting? lookup "OH_TIME_ZONE") (setting? lookup "OH_UTC_OFFSET"))
    (h : ∀ name ∈ variableNames, name ≠ "OH_UTC_OFFSET" → Agree lookup other name) :
    readWith named? other = readWith named? lookup := by
  have hsame (name : String) (hmem : name ∈ variableNames) (hne : name ≠ "OH_UTC_OFFSET") :
      setting? other name = setting? lookup name :=
    (agree_iff.mp (h name hmem hne)).symm
  simp only [readWith, hzone, hsame "OH_TAG_NAME" (by decide) (by decide),
    hsame "OH_PLAN_FILE" (by decide) (by decide), hsame "OH_PROFILE" (by decide) (by decide),
    hsame "OH_CALL_TIMEOUT_MS" (by decide) (by decide)]

/-- Sources that agree on the six variables have the same settings, and if a zone is named, they need not agree on the
offset. There are no settings exactly if the zone is not known, or there is none and the offset is not one, or the
deadline is not a number that is small enough, and a fault of the zone or offset hides one of the deadline. -/
theorem readWith_depends (named? : String → Option NamedZone) (lookup : String → Option String) :
    (∀ other, (∀ name ∈ variableNames, Agree lookup other name) →
      readWith named? other = readWith named? lookup) ∧
    (∀ zone other, Given lookup "OH_TIME_ZONE" zone →
      (∀ name ∈ variableNames, name ≠ "OH_UTC_OFFSET" → Agree lookup other name) →
      readWith named? other = readWith named? lookup) ∧
    (∀ settings, readWith named? lookup = .ok settings →
      ZoneGiven named? lookup (.ok settings.zone) ∧ TimeoutGiven lookup (.ok settings.callTimeout)) ∧
    ((∃ e, readWith named? lookup = .error e) ↔
      (∃ zone, Given lookup "OH_TIME_ZONE" zone ∧ named? zone = none) ∨
      (Unset lookup "OH_TIME_ZONE" ∧
        ∃ text, Given lookup "OH_UTC_OFFSET" text ∧ ∀ seconds, ¬Offset.Says text.toList seconds) ∨
      ∃ text, Given lookup "OH_CALL_TIMEOUT_MS" text ∧ ∀ ms, Text.Numeral text.toList ms → maxTimeout < ms) ∧
    ∀ e, readWith named? lookup = .error e ↔
      ZoneGiven named? lookup (.error e) ∨
        TimeoutGiven lookup (.error e) ∧ ∀ fault, ¬ZoneGiven named? lookup (.error fault) := by
  refine ⟨fun other h => ?_, fun zone other hzone h => ?_, fun settings => readWith_ok, ⟨?_, ?_⟩,
    fun e => readWith_eq_error_iff⟩
  · refine readWith_congr ?_ fun name hmem _ => h name hmem
    rw [agree_iff.mp (h "OH_TIME_ZONE" (by decide)), agree_iff.mp (h "OH_UTC_OFFSET" (by decide))]
  · refine readWith_congr ?_ h
    have hname := setting?_eq_some_iff.mpr hzone
    rw [← agree_iff.mp (h "OH_TIME_ZONE" (by decide) (by decide)), hname, readZone, readZone]
  · rintro ⟨e, he⟩
    rcases readWith_eq_error_iff.mp he with hfault | ⟨hfault, -⟩
    · cases hfault with
      | unknown h hname => exact Or.inl ⟨_, h, hname⟩
      | badOffset hunset h hnot => exact Or.inr (Or.inl ⟨hunset, _, h, hnot⟩)
    · cases hfault with
      | bad h hnot => exact Or.inr (Or.inr ⟨_, h, hnot⟩)
  · rintro (⟨zone, h, hname⟩ | ⟨hunset, text, h, hnot⟩ | ⟨text, h, hnot⟩)
    · exact ⟨_, readWith_eq_error_iff.mpr (Or.inl (.unknown h hname))⟩
    · exact ⟨_, readWith_eq_error_iff.mpr (Or.inl (.badOffset hunset h hnot))⟩
    · by_cases hzone : ∃ fault, ZoneGiven named? lookup (.error fault)
      · obtain ⟨fault, hfault⟩ := hzone
        exact ⟨fault, readWith_eq_error_iff.mpr (Or.inl hfault)⟩
      · exact ⟨_, readWith_eq_error_iff.mpr (Or.inr ⟨.bad h hnot, not_exists.mp hzone⟩)⟩

/-- Behind the name of a zone the offset may be anything. Without it the offset is at fault, and so is the deadline, but
that does not show. -/
theorem readWith_depends_shadowed :
    let named := fun name => [("OH_TIME_ZONE", " Europe/Amsterdam\t"), ("OH_UTC_OFFSET", "Amsterdam"),
      ("OH_CALL_TIMEOUT_MS", "+1500 ")].lookup name
    let plain := fun name => [("OH_TIME_ZONE", "Europe/Amsterdam"), ("OH_PROFILE", " "),
      ("OH_CALL_TIMEOUT_MS", "+1500")].lookup name
    let unnamed := fun name => [("OH_TIME_ZONE", " "), ("OH_UTC_OFFSET", "Amsterdam"),
      ("OH_CALL_TIMEOUT_MS", "soon")].lookup name
    read named = .ok { zone := .named .amsterdam, callTimeout := some 1500 } ∧ read plain = read named ∧
      read unnamed = .error (.badOffset "Amsterdam") ∧ TimeoutGiven unnamed (.error (.badTimeout "soon")) := by
  intro named plain unnamed
  have hzone : Given named "OH_TIME_ZONE" "Europe/Amsterdam" := setting?_eq_some_iff.mp (by decide +kernel)
  have hagree : ∀ name ∈ variableNames, name ≠ "OH_UTC_OFFSET" → Agree named plain name := by
    simp only [agree_iff]
    decide +kernel
  have hfault : ZoneGiven NamedZone.find? unnamed (.error (.badOffset "Amsterdam")) :=
    readZone_eq_iff.mp (by decide +kernel)
  obtain ⟨-, hbehind, -⟩ := readWith_depends NamedZone.find? named
  obtain ⟨-, -, -, -, herror⟩ := readWith_depends NamedZone.find? unnamed
  exact ⟨by decide +kernel, hbehind _ plain hzone hagree, (herror _).mpr (Or.inl hfault),
    readTimeout_eq_iff.mp (by decide +kernel)⟩

/-! ### Text behind an offset -/

private theorem Given.eq (h : Given lookup name value) {value' : String} (h' : Given lookup name value') :
    value = value' := by
  rw [← setting?_eq_some_iff] at h h'
  exact Option.some.inj (h.symm.trans h')

private theorem Given.not_unset (h : Given lookup name value) : ¬Unset lookup name := by
  rw [← setting?_eq_some_iff] at h
  rw [← setting?_eq_none_iff, h]
  nofun

private theorem setting?_update_of_ne {changed : String} (hne : name ≠ changed) (given : Option String) :
    setting? (Function.update lookup changed given) name = setting? lookup name := by
  rw [setting?, Function.update_of_ne hne, setting?]

/-- Without the name of a zone, an offset that counts is one that is read. -/
private theorem exists_says_of_readWith_ok {settings : Settings} (hunset : Unset lookup "OH_TIME_ZONE")
    (hvalue : Given lookup "OH_UTC_OFFSET" value) (hread : readWith named? lookup = .ok settings) :
    ∃ seconds, Offset.Says value.toList seconds := by
  have hzone := (readWith_ok hread).1
  generalize settings.zone = zone at hzone
  cases hzone with
  | named h => exact absurd hunset h.not_unset
  | fixed _ h hsay => exact ⟨_, hvalue.eq h ▸ hsay⟩
  | host _ hoffset => exact absurd hoffset hvalue.not_unset

/-- What is read as an offset is still read with anything behind it, and the settings are the same, unless the offset is
`UTC` or `Z`: with anything behind these it is refused. A complete offset does not come about in either case. -/
theorem readWith_followed (named? : String → Option NamedZone) {lookup : String → Option String} {v x value : String}
    {settings : Settings} (hunset : Unset lookup "OH_TIME_ZONE") (hv : lookup "OH_UTC_OFFSET" = some v)
    (hvalue : Given lookup "OH_UTC_OFFSET" value) (hread : readWith named? lookup = .ok settings)
    (hx : ∃ c ∈ x.toList.getLast?, Text.isBlank c = false) :
    let followed := Function.update lookup "OH_UTC_OFFSET" (some (v ++ x))
    let text := Text.trimmed (v ++ x)
    ¬Offset.Complete text.toList ∧
      (Offset.Word value.toList → readWith named? followed = .error (.badOffset text)) ∧
      (¬Offset.Word value.toList → readWith named? followed = .ok settings) := by
  intro followed text
  obtain ⟨seconds, hsay⟩ := exists_says_of_readWith_ok hunset hvalue hread
  have hfixed : ZoneGiven named? lookup (.ok (.fixed seconds)) := .fixed hunset hvalue hsay
  obtain ⟨hne, raw, hraw, hpadded⟩ := hvalue
  obtain rfl : v = raw := Option.some.inj (hv.symm.trans hraw)
  have hnil : value.toList ≠ [] := fun h => hne (String.toList_eq_nil_iff.mp h)
  obtain ⟨rest, hrest, hpadded⟩ := hpadded.append hnil hx
  have htext : text.toList = value.toList ++ rest := by
    rw [show text = Text.trimmed (v ++ x) from rfl, Text.trimmed, String.toList_ofList, String.toList_append,
      hpadded.trim_eq]
  have hunset' : Unset followed "OH_TIME_ZONE" := by
    rwa [← setting?_eq_none_iff, setting?_update_of_ne (by decide), setting?_eq_none_iff]
  have hgiven : Given followed "OH_UTC_OFFSET" text := by
    refine ⟨fun h => ?_, v ++ x, Function.update_self _ _ _, trimmed_eq_iff.mp rfl⟩
    rw [h] at htext
    exact hrest (List.append_eq_nil_iff.mp htext.symm).2
  refine ⟨?_, fun hword => ?_, fun hword => ?_⟩
  · rw [htext]
    exact hsay.not_complete_append hrest
  · refine readWith_eq_error_iff.mpr (Or.inl (.badOffset hunset' hgiven fun offset => ?_))
    rw [htext]
    exact hword.not_says_append hrest offset
  · have hfixed' : ZoneGiven named? followed (.ok (.fixed seconds)) := by
      refine .fixed hunset' hgiven ?_
      rw [htext]
      exact hsay.append hword rest
    rw [← hread]
    refine readWith_congr (hfixed'.eq.trans hfixed.eq.symm) fun name _ hne => ?_
    rw [agree_iff, setting?_update_of_ne hne]

/-- A name behind an offset is dropped, and behind `UTC` it is refused. -/
theorem readWith_followed_name :
    let east := fun name => [("OH_UTC_OFFSET", " -05:30 ")].lookup name
    let utc := fun name => [("OH_UTC_OFFSET", "utc")].lookup name
    read (Function.update east "OH_UTC_OFFSET" (some (" -05:30 " ++ "Lima"))) = .ok { zone := .fixed (-19800) } ∧
      read (Function.update utc "OH_UTC_OFFSET" (some ("utc" ++ "+2"))) = .error (.badOffset "utc+2") := by
  intro east utc
  have hunset : ∀ lookup ∈ [east, utc], Unset lookup "OH_TIME_ZONE" := by
    simp only [← setting?_eq_none_iff]
    decide +kernel
  have heast : Given east "OH_UTC_OFFSET" "-05:30" := setting?_eq_some_iff.mp (by decide +kernel)
  have hutc : Given utc "OH_UTC_OFFSET" "utc" := setting?_eq_some_iff.mp (by decide +kernel)
  have hread : read east = .ok { zone := .fixed (-19800) } := by decide +kernel
  have hread' : read utc = .ok { zone := .fixed 0 } := by decide +kernel
  have hlast : ∃ c ∈ "Lima".toList.getLast?, Text.isBlank c = false := ⟨'a', by decide, by decide⟩
  have hlast' : ∃ c ∈ "+2".toList.getLast?, Text.isBlank c = false := ⟨'2', by decide, by decide⟩
  obtain ⟨-, -, hsame⟩ := readWith_followed NamedZone.find? (hunset east (by simp)) rfl heast hread hlast
  obtain ⟨-, hrefused, -⟩ := readWith_followed NamedZone.find? (hunset utc (by simp)) rfl hutc hread' hlast'
  exact ⟨hsame (by simp [Offset.Word]), hrefused (Or.inl (by decide +kernel))⟩

/-- Not every offset with something behind it is refused. -/
theorem readWith_followed_seconds :
    ¬∀ (lookup : String → Option String) (v x : String), Unset lookup "OH_TIME_ZONE" →
      lookup "OH_UTC_OFFSET" = some v → ¬Unset lookup "OH_UTC_OFFSET" → (∃ settings, read lookup = .ok settings) →
      x ≠ "" → (∀ c ∈ x.toList.getLast?, Text.isBlank c = false) → ¬Offset.Complete (v ++ x).toList →
      ∃ text, read (Function.update lookup "OH_UTC_OFFSET" (some (v ++ x))) = .error (.badOffset text) := by
  intro hrefusal
  let lookup := fun name => [("OH_UTC_OFFSET", "+02:00")].lookup name
  have hunset : Unset lookup "OH_TIME_ZONE" := setting?_eq_none_iff.mp (by decide +kernel)
  have hgiven : Given lookup "OH_UTC_OFFSET" "+02:00" := setting?_eq_some_iff.mp (by decide +kernel)
  have hread : read lookup = .ok { zone := .fixed 7200 } := by decide +kernel
  have hsay : Offset.Says "+02:00".toList 7200 := Offset.readOffset?_eq_some_iff.mp (by decide +kernel)
  have hcomplete : ¬Offset.Complete ("+02:00" ++ ":30").toList :=
    String.toList_append ▸ hsay.not_complete_append (by decide)
  have hlast : ":30".toList.getLast? = some '0' := by decide
  have hdropped : read (Function.update lookup "OH_UTC_OFFSET" (some ("+02:00" ++ ":30"))) =
      .ok { zone := .fixed 7200 } := by
    decide +kernel
  have hnot : ∀ c ∈ ":30".toList.getLast?, Text.isBlank c = false := by
    rw [hlast]
    rintro _ ⟨⟩
    decide
  obtain ⟨text, hrefused⟩ := hrefusal lookup "+02:00" ":30" hunset rfl hgiven.not_unset ⟨_, hread⟩ (by decide) hnot
    hcomplete
  rw [hdropped] at hrefused
  cases hrefused

end ServiceHours.Settings
