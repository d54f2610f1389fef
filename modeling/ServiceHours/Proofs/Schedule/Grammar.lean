import Mathlib.Data.List.Forall2
import ServiceHours.Proofs.Text.Numeral
import ServiceHours.Proofs.Text.Split
import ServiceHours.Schedule.Recurrence

/-!
# The grammar of recurrences

Which texts are recurrences, and what is wrong with the others.

* `Recurrence.Says` describes the texts that stand for a recurrence: three words, which are a minute, an hour and days
  (`Recurrence.Days`: one day, a range or a list).
* `Recurrence.Fails` describes the faults. What stands left of a fault is in order, so a text has one fault only.
* A list is read from left to right behind the days that came before (`Recurrence.readListed_append`), and what is read
  as days is what the description says (`Recurrence.Days.read_eq`, `Recurrence.DaysFail.read_eq`).
* A text is a recurrence or has a fault (`Recurrence.says_or_fails`), so reading finds the one or the other
  (`Recurrence.read_eq_ok_iff`, `Recurrence.read_eq_error_iff`).

The first section holds what other readings need, too: two descriptions of which one always applies say all of a reading
(`ok_iff_and_error_iff`), and of many items all have results or there is a first one at fault (`forall₂_or_first`).
-/

namespace ServiceHours

/-! ### Readings that succeed or fail -/

/-- A sequence of two readings succeeds only if both do. -/
theorem ok_of_bind_eq_ok {ε α β : Type} {x : Except ε α} {f : α → Except ε β} {b : β} (h : x >>= f = .ok b) :
    ∃ a, x = .ok a ∧ f a = .ok b := by
  cases x with
  | error e => simp [bind, Except.bind] at h
  | ok a => exact ⟨a, rfl, h⟩

/-- If success and failure are described, and one of the descriptions always applies, they apply to nothing else. -/
theorem ok_iff_and_error_iff {ε α : Type} {x : Except ε α} {p : α → Prop} {q : ε → Prop} (hok : ∀ a, p a → x = .ok a)
    (herror : ∀ e, q e → x = .error e) (htotal : (∃ a, p a) ∨ ∃ e, q e) :
    (∀ a, x = .ok a ↔ p a) ∧ ∀ e, x = .error e ↔ q e := by
  rcases htotal with ⟨a, ha⟩ | ⟨e, he⟩
  · rw [hok a ha]
    refine ⟨fun b => ⟨fun h => Except.ok.inj h ▸ ha, fun hb => ?_⟩, fun e => ⟨nofun, fun he => ?_⟩⟩
    · rw [← hok a ha, hok b hb]
    · rw [← hok a ha, herror e he]
  · rw [herror e he]
    refine ⟨fun a => ⟨nofun, fun ha => ?_⟩, fun e' => ⟨fun h => Except.error.inj h ▸ he, fun he' => ?_⟩⟩
    · rw [← herror e he, hok a ha]
    · rw [← herror e he, herror e' he']

theorem exists_forall₂_iff {α β : Type} {R : α → β → Prop} {items : List α} :
    (∃ results, List.Forall₂ R items results) ↔ ∀ a ∈ items, ∃ b, R a b := by
  induction items with
  | nil => exact iff_of_true ⟨[], .nil⟩ fun a ha => absurd ha List.not_mem_nil
  | cons a items ih =>
    rw [List.forall_mem_cons, ← ih]
    constructor
    · rintro ⟨_, hall⟩
      cases hall with
      | cons hb hresults => exact ⟨⟨_, hb⟩, _, hresults⟩
    · rintro ⟨⟨b, hb⟩, results, hresults⟩
      exact ⟨b :: results, .cons hb hresults⟩

/-- Items that all have their results, or a first one that is at fault. -/
theorem forall₂_or_first {α β : Type} {R : α → β → Prop} {p : α → Prop} (htotal : ∀ a, (∃ b, R a b) ∨ p a)
    (items : List α) : (∃ results, List.Forall₂ R items results) ∨ ∃ before bad after results,
      items = before ++ bad :: after ∧ List.Forall₂ R before results ∧ p bad := by
  induction items with
  | nil => exact Or.inl ⟨[], .nil⟩
  | cons a items ih =>
    rcases htotal a with ⟨b, hb⟩ | hbad
    · rcases ih with ⟨results, hresults⟩ | ⟨before, bad, after, results, rfl, hresults, hbad⟩
      · exact Or.inl ⟨b :: results, .cons hb hresults⟩
      · exact Or.inr ⟨a :: before, bad, after, b :: results, rfl, .cons hb hresults, hbad⟩
    · exact Or.inr ⟨[], a, items, [], rfl, .nil, hbad⟩

namespace Recurrence

/-! ### The description -/

/-- The last minute of an hour, the last hour of a day and the last day of a week that begins with day 0. -/
def lastOf : TimeField → Nat
  | .minute => 59
  | .hour => 23
  | .day => 6

/-- The value is a number that the field takes. -/
def Field (field : TimeField) (value : List Char) (n : Nat) : Prop :=
  Text.Numeral value n ∧ n ≤ lastOf field

/-- What can be wrong with the value of a field: it is no number that can be held, or one that the field does not
take. -/
inductive FieldFails (expr : String) (field : TimeField) (value : List Char) : ScheduleError → Prop
  | number (hnumber : ∀ n, Text.Numeral value n → Text.maxCount < n) :
    FieldFails expr field value (.notNumber field (String.ofList value) expr)
  | range {n : Nat} (hnumber : Text.Numeral value n) (hheld : n ≤ Text.maxCount) (hlarge : lastOf field < n) :
    FieldFails expr field value (.outOfRange field n expr)

/-- The days that a text stands for: one day, the days of a range from first to last, or those of a list in its
order. -/
inductive Days : List Char → List Nat → Prop
  | single {value : List Char} {n : Nat} (h : Field .day value n) : Days value [n]
  | range {first last : List Char} {a b : Nat} (hfirst : Field .day first a) (hlast : Field .day last b) (hle : a ≤ b) :
    Days (first ++ '-' :: last) (List.range' a (b + 1 - a))
  | listed {text : List Char} {values : List (List Char)} {days : List Nat} (hpieces : Text.Pieces '/' text values)
    (htwo : 2 ≤ values.length) (hvalues : List.Forall₂ (Field .day) values days) (hnew : days.Nodup) : Days text days

/-- What can be wrong with the days. With a slash they are a list, else with a dash a range, which begins before the
first dash. -/
inductive DaysFail (expr : String) : List Char → ScheduleError → Prop
  | single {value : List Char} {e : ScheduleError} (hlist : '/' ∉ value) (hrange : '-' ∉ value)
    (hfails : FieldFails expr .day value e) : DaysFail expr value e
  | first {first last : List Char} {e : ScheduleError} (hlist : '/' ∉ first ++ '-' :: last) (hdash : '-' ∉ first)
    (hfails : FieldFails expr .day first e) : DaysFail expr (first ++ '-' :: last) e
  | last {first last : List Char} {a : Nat} {e : ScheduleError} (hlist : '/' ∉ last) (hfirst : Field .day first a)
    (hfails : FieldFails expr .day last e) : DaysFail expr (first ++ '-' :: last) e
  | reversed {first last : List Char} {a b : Nat} (hfirst : Field .day first a) (hlast : Field .day last b)
    (hlt : b < a) : DaysFail expr (first ++ '-' :: last) (.emptyRange expr)
  | listed {text value : List Char} {before after : List (List Char)} {days : List Nat} {e : ScheduleError}
    (hpieces : Text.Pieces '/' text (before ++ value :: after)) (htwo : 2 ≤ (before ++ value :: after).length)
    (hbefore : List.Forall₂ (Field .day) before days) (hnew : days.Nodup) (hfails : FieldFails expr .day value e) :
    DaysFail expr text e
  | repeated {text value : List Char} {before after : List (List Char)} {days : List Nat} {n : Nat}
    (hpieces : Text.Pieces '/' text (before ++ value :: after)) (hbefore : List.Forall₂ (Field .day) before days)
    (hnew : days.Nodup) (hvalue : Field .day value n) (hseen : n ∈ days) : DaysFail expr text (.repeatedDay n expr)

/-- The recurrence that a text stands for: its words are a minute, an hour and days. -/
inductive Says (expr : String) : Recurrence → Prop
  | intro {minute hour days : List Char} {r : Recurrence} (hwords : Text.Spaced expr.toList [minute, hour, days])
    (hminute : Field .minute minute r.minute) (hhour : Field .hour hour r.hour) (hdays : Days days r.days) : Says expr r

/-- What can be wrong with a text: the number of its words, else the first of them that is faulty. -/
inductive Fails (expr : String) : ScheduleError → Prop
  | fieldCount {words : List (List Char)} (hwords : Text.Spaced expr.toList words) (hcount : words.length ≠ 3) :
    Fails expr (.fieldCount expr)
  | minute {minute hour days : List Char} {e : ScheduleError} (hwords : Text.Spaced expr.toList [minute, hour, days])
    (hfails : FieldFails expr .minute minute e) : Fails expr e
  | hour {minute hour days : List Char} {m : Nat} {e : ScheduleError}
    (hwords : Text.Spaced expr.toList [minute, hour, days]) (hminute : Field .minute minute m)
    (hfails : FieldFails expr .hour hour e) : Fails expr e
  | days {minute hour days : List Char} {m h : Nat} {e : ScheduleError}
    (hwords : Text.Spaced expr.toList [minute, hour, days]) (hminute : Field .minute minute m)
    (hhour : Field .hour hour h) (hfails : DaysFail expr days e) : Fails expr e

variable {expr : String} {field : TimeField} {text value : List Char} {n : Nat} {days seen : List Nat}
  {e : ScheduleError} {r : Recurrence}

/-! ### One field -/

/-- The bounds of the description are those that reading checks. -/
private theorem lastOf_eq_greatest (field : TimeField) : lastOf field = field.greatest := by
  cases field <;> rfl

private theorem lastOf_le_maxCount (field : TimeField) : lastOf field ≤ Text.maxCount := by
  cases field <;> decide

private theorem Field.read_eq (h : Field field value n) : readField expr field value = .ok n := by
  have hheld : n ≤ Text.maxCount := Nat.le_trans h.2 (lastOf_le_maxCount field)
  rw [readField, Text.natural?_eq_some_iff.mpr ⟨h.1, hheld⟩]
  exact if_pos (lastOf_eq_greatest field ▸ h.2)

private theorem FieldFails.read_eq (h : FieldFails expr field value e) : readField expr field value = .error e := by
  unfold readField
  cases h with
  | number hnumber => rw [Text.natural?_eq_none_iff.mpr hnumber]
  | range hnumber hheld hlarge =>
    rw [Text.natural?_eq_some_iff.mpr ⟨hnumber, hheld⟩]
    exact if_neg (Nat.not_le.mpr (lastOf_eq_greatest field ▸ hlarge))

private theorem field_or_fails (expr : String) (field : TimeField) (value : List Char) :
    (∃ n, Field field value n) ∨ ∃ e, FieldFails expr field value e := by
  by_cases hnumber : ∃ n ≤ Text.maxCount, Text.Numeral value n
  · obtain ⟨n, hheld, hn⟩ := hnumber
    rcases Nat.lt_or_ge (lastOf field) n with hlarge | hle
    · exact Or.inr ⟨_, .range hn hheld hlarge⟩
    · exact Or.inl ⟨n, hn, hle⟩
  · exact Or.inr ⟨_, .number fun n hn => Nat.lt_of_not_le fun hheld => hnumber ⟨n, hheld, hn⟩⟩

theorem Field.slash_not_mem (h : Field field value n) : '/' ∉ value := h.1.not_mem (by decide) (by decide)

private theorem Field.dash_not_mem (h : Field field value n) : '-' ∉ value := h.1.not_mem (by decide) (by decide)

/-! ### The days -/

private theorem readListed_cons (h : Field .day value n) (values : List (List Char)) :
    readListed expr seen (value :: values) =
      if n ∈ seen then .error (.repeatedDay n expr) else readListed expr (seen ++ [n]) values := by
  rw [readListed, h.read_eq]
  show (if seen.contains n then _ else _) = _
  simp only [List.contains_iff_mem]

/-- New days are read behind those already seen. -/
theorem readListed_append (expr : String) (seen : List Nat) {before : List (List Char)}
    (hbefore : List.Forall₂ (Field .day) before days) (hnew : (seen ++ days).Nodup) (rest : List (List Char)) :
    readListed expr seen (before ++ rest) = readListed expr (seen ++ days) rest := by
  induction hbefore generalizing seen with
  | nil => rw [List.append_nil, List.nil_append]
  | @cons value n before days hvalue _ ih =>
    rw [List.append_cons] at hnew
    have hfresh : n ∉ seen := fun hmem =>
      (List.nodup_append.mp (List.nodup_append.mp hnew).1).2.2 n hmem n (List.mem_singleton.mpr rfl) rfl
    rw [List.cons_append, readListed_cons hvalue, if_neg hfresh, ih _ hnew, ← List.append_cons]

/-- The values of a list are new days, or one behind new days is at fault or repeats one of them. -/
private theorem listed_or_fails (expr : String) (values : List (List Char)) :
    (∃ days, List.Forall₂ (Field .day) values days ∧ days.Nodup) ∨
      ∃ before value after days, values = before ++ value :: after ∧ List.Forall₂ (Field .day) before days ∧
        days.Nodup ∧ ((∃ e, FieldFails expr .day value e) ∨ ∃ n ∈ days, Field .day value n) := by
  -- From the back, because a day has to be new against those in front of it.
  induction values using List.reverseRecOn with
  | nil => exact Or.inl ⟨[], .nil, List.nodup_nil⟩
  | append_singleton values value ih =>
    rcases ih with ⟨days, hvalues, hnew⟩ | ⟨before, bad, after, days, rfl, hrest⟩
    · rcases field_or_fails expr .day value with ⟨n, hn⟩ | hfails
      · by_cases hseen : n ∈ days
        · exact Or.inr ⟨values, value, [], days, rfl, hvalues, hnew, Or.inr ⟨n, hseen, hn⟩⟩
        · refine Or.inl ⟨days ++ [n], List.rel_append hvalues (.cons hn .nil), ?_⟩
          refine List.nodup_append.mpr ⟨hnew, List.pairwise_singleton _ n, fun a ha b hb hab => hseen ?_⟩
          rwa [← List.mem_singleton.mp hb, ← hab]
      · exact Or.inr ⟨values, value, [], days, rfl, hvalues, hnew, Or.inl hfails⟩
    · exact Or.inr ⟨before, bad, after ++ [value], days, by rw [List.append_assoc, List.cons_append], hrest⟩

/-- A text of two pieces or more holds the character between them. -/
private theorem slash_mem {values : List (List Char)} (hpieces : Text.Pieces '/' text values)
    (htwo : 2 ≤ values.length) :
    '/' ∈ text := by
  obtain ⟨rfl, -, -⟩ := hpieces
  match values with
  | first :: second :: rest =>
    rw [List.intercalate_cons_cons]
    simp

private theorem readDays_of_pieces {values : List (List Char)} (hpieces : Text.Pieces '/' text values)
    (htwo : 2 ≤ values.length) : readDays expr text = readListed expr [] values := by
  rw [readDays, if_pos (List.contains_iff_mem.mpr (slash_mem hpieces htwo)), Text.split_eq_iff.mpr hpieces]

private theorem readDays_of_dash {first last : List Char} (hlist : '/' ∉ first ++ '-' :: last) (hdash : '-' ∉ first) :
    readDays expr (first ++ '-' :: last) = (do
      let a ← readField expr .day first
      let b ← readField expr .day last
      if b < a then .error (.emptyRange expr) else .ok (List.range' a (b + 1 - a))) := by
  rw [readDays, if_neg fun h => hlist (List.contains_iff_mem.mp h), Text.splitFirst_append_cons hdash]

private theorem readDays_of_plain (hlist : '/' ∉ text) (hrange : '-' ∉ text) :
    readDays expr text = (readField expr .day text).map ([·]) := by
  rw [readDays, if_neg fun h => hlist (List.contains_iff_mem.mp h), Text.splitFirst_eq_none_iff.mpr hrange]
  cases readField expr .day text <;> rfl

private theorem slash_not_mem_range {first last : List Char} (hfirst : '/' ∉ first) (hlast : '/' ∉ last) :
    '/' ∉ first ++ '-' :: last := by
  rw [List.mem_append, List.mem_cons, not_or, not_or]
  exact ⟨hfirst, by decide, hlast⟩

theorem Days.read_eq (h : Days text days) : readDays expr text = .ok days := by
  cases h with
  | single h => rw [readDays_of_plain h.slash_not_mem h.dash_not_mem, h.read_eq, Except.map]
  | range hfirst hlast hle =>
    rw [readDays_of_dash (slash_not_mem_range hfirst.slash_not_mem hlast.slash_not_mem) hfirst.dash_not_mem,
      hfirst.read_eq, hlast.read_eq]
    exact if_neg (Nat.not_lt.mpr hle)
  | listed hpieces htwo hvalues hnew =>
    have hrun := readListed_append expr [] hvalues hnew []
    rw [List.append_nil, List.nil_append] at hrun
    rw [readDays_of_pieces hpieces htwo, hrun, readListed]

theorem DaysFail.read_eq (h : DaysFail expr text e) : readDays expr text = .error e := by
  cases h with
  | single hlist hrange hfails => rw [readDays_of_plain hlist hrange, hfails.read_eq, Except.map]
  | first hlist hdash hfails =>
    rw [readDays_of_dash hlist hdash, hfails.read_eq]
    rfl
  | last hlist hfirst hfails =>
    rw [readDays_of_dash (slash_not_mem_range hfirst.slash_not_mem hlist) hfirst.dash_not_mem, hfirst.read_eq,
      hfails.read_eq]
    rfl
  | reversed hfirst hlast hlt =>
    rw [readDays_of_dash (slash_not_mem_range hfirst.slash_not_mem hlast.slash_not_mem) hfirst.dash_not_mem,
      hfirst.read_eq, hlast.read_eq]
    exact if_pos hlt
  | listed hpieces htwo hbefore hnew hfails =>
    rw [readDays_of_pieces hpieces htwo, readListed_append expr [] hbefore hnew, readListed, hfails.read_eq]
    rfl
  | @repeated _ value before after days n hpieces hbefore hnew hvalue hseen =>
    have htwo : 2 ≤ (before ++ value :: after).length := by
      have hlength := hbefore.length_eq
      have hpos := List.length_pos_of_mem hseen
      rw [List.length_append, List.length_cons]
      omega
    rw [readDays_of_pieces hpieces htwo, readListed_append expr [] hbefore hnew, readListed_cons hvalue]
    exact if_pos hseen

private theorem days_or_fail (expr : String) (text : List Char) :
    (∃ days, Days text days) ∨ ∃ e, DaysFail expr text e := by
  by_cases hlist : '/' ∈ text
  · have hpieces : Text.Pieces '/' text (Text.split (· == '/') text) := Text.split_eq_iff.mp rfl
    have htwo : 2 ≤ (Text.split (· == '/') text).length := by
      obtain ⟨before, after, rfl, hbefore⟩ := List.eq_append_cons_of_mem hlist
      have hpos := List.length_pos_of_ne_nil (Text.split_ne_nil (· == '/') after)
      rw [Text.split_append_cons hbefore, List.length_cons]
      omega
    rcases listed_or_fails expr (Text.split (· == '/') text) with
      ⟨days, hvalues, hnew⟩ | ⟨before, value, after, days, hsplit, hbefore, hnew, ⟨e, he⟩ | ⟨n, hseen, hn⟩⟩
    · exact Or.inl ⟨days, .listed hpieces htwo hvalues hnew⟩
    · rw [hsplit] at hpieces htwo
      exact Or.inr ⟨e, .listed hpieces htwo hbefore hnew he⟩
    · rw [hsplit] at hpieces
      exact Or.inr ⟨_, .repeated hpieces hbefore hnew hn hseen⟩
  · by_cases hrange : '-' ∈ text
    · obtain ⟨first, last, rfl, hdash⟩ := List.eq_append_cons_of_mem hrange
      rcases field_or_fails expr .day first with ⟨a, hfirst⟩ | ⟨e, he⟩
      · have hlast : '/' ∉ last := fun h => hlist (List.mem_append_right first (List.mem_cons_of_mem '-' h))
        rcases field_or_fails expr .day last with ⟨b, hb⟩ | ⟨e, he⟩
        · rcases Nat.lt_or_ge b a with hlt | hle
          · exact Or.inr ⟨_, .reversed hfirst hb hlt⟩
          · exact Or.inl ⟨_, .range hfirst hb hle⟩
        · exact Or.inr ⟨e, .last hlast hfirst he⟩
      · exact Or.inr ⟨e, .first hlist hdash he⟩
    · rcases field_or_fails expr .day text with ⟨n, hn⟩ | ⟨e, he⟩
      · exact Or.inl ⟨[n], .single hn⟩
      · exact Or.inr ⟨e, .single hlist hrange he⟩

/-! ### The whole text -/

private theorem read_of_words {minute hour days : List Char} (hwords : Text.Spaced expr.toList [minute, hour, days]) :
    read expr = (do
      let minute ← readField expr .minute minute
      let hour ← readField expr .hour hour
      let days ← readDays expr days
      return ⟨minute, hour, days⟩) := by
  rw [read, hwords.words_eq]

private theorem Says.read_eq (h : Says expr r) : read expr = .ok r := by
  obtain ⟨hwords, hminute, hhour, hdays⟩ := h
  rw [read_of_words hwords, hminute.read_eq, hhour.read_eq, hdays.read_eq]
  rfl

private theorem Fails.read_eq (h : Fails expr e) : read expr = .error e := by
  cases h with
  | fieldCount hwords hcount =>
    rw [read, hwords.words_eq]
    split
    · exact absurd rfl hcount
    · rfl
  | minute hwords hfails =>
    rw [read_of_words hwords, hfails.read_eq]
    rfl
  | hour hwords hminute hfails =>
    rw [read_of_words hwords, hminute.read_eq, hfails.read_eq]
    rfl
  | days hwords hminute hhour hfails =>
    rw [read_of_words hwords, hminute.read_eq, hhour.read_eq, hfails.read_eq]
    rfl

/-- A text is a recurrence, or something is wrong with it. -/
theorem says_or_fails (expr : String) : (∃ r, Says expr r) ∨ ∃ e, Fails expr e := by
  obtain ⟨words, hwords⟩ := Text.exists_spaced expr.toList
  by_cases hcount : words.length = 3
  · obtain ⟨minute, hour, days, rfl⟩ := List.length_eq_three.mp hcount
    rcases field_or_fails expr .minute minute with ⟨m, hm⟩ | ⟨e, he⟩
    · rcases field_or_fails expr .hour hour with ⟨h, hh⟩ | ⟨e, he⟩
      · rcases days_or_fail expr days with ⟨ds, hds⟩ | ⟨e, he⟩
        · exact Or.inl ⟨⟨m, h, ds⟩, hwords, hm, hh, hds⟩
        · exact Or.inr ⟨e, .days hwords hm hh he⟩
      · exact Or.inr ⟨e, .hour hwords hm he⟩
    · exact Or.inr ⟨e, .minute hwords he⟩
  · exact Or.inr ⟨_, .fieldCount hwords hcount⟩

theorem read_eq_ok_iff : read expr = .ok r ↔ Says expr r :=
  (ok_iff_and_error_iff (fun _ => Says.read_eq) (fun _ => Fails.read_eq) (says_or_fails expr)).1 r

theorem read_eq_error_iff : read expr = .error e ↔ Fails expr e :=
  (ok_iff_and_error_iff (fun _ => Says.read_eq) (fun _ => Fails.read_eq) (says_or_fails expr)).2 e

/-- Reading accepts the texts of the grammar and no others, with the recurrence that they stand for, and reports the
first fault of any other text. -/
theorem read_grammar (expr : String) :
    (∀ r, read expr = .ok r ↔ Says expr r) ∧ ∀ e, read expr = .error e ↔ Fails expr e :=
  ⟨fun _ => read_eq_ok_iff, fun _ => read_eq_error_iff⟩

/-- The 2 comes for the second time before the 9, which is no day of the week. -/
example : read "0 +18 1/2/02/9" = .error (.repeatedDay 2 "0 +18 1/2/02/9") := by
  decide +kernel

end Recurrence

end ServiceHours
