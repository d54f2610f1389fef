import ServiceHours.Proofs.Schedule.Grammar
import ServiceHours.Schedule.Reading

/-!
# What a schedule says

The reading of a schedule against a description of its clauses and of what they mean together.

* A clause is a key and a value around its only equals sign. `Clause.Says` lists what it can say, `Clause.Fails` what
  can be wrong with it; reading a clause finds the one or the other (`Clause.read_eq_ok_iff`,
  `Clause.read_eq_error_iff`).
* `Clause.changes` gives each running clause the last count that stands before the next running one; the counts in
  front of all running clauses are stray. Reading goes forward and corrects an earlier change whenever a count comes;
  one clause more leads from the meaning of what was read to the meaning of it all (`Reading.add_ofSaid`).
* `Schedule.Clauses` describes the clauses of a text, and they are the ones that reading goes through
  (`Schedule.clauses_eq_iff`).
* `Schedule.read_meaning` puts this together: what a schedule says, and the error of its first faulty clause.
-/

namespace ServiceHours

/-! ### One clause -/

namespace Clause

/-- The clause is a key and a value around its only equals sign; blanks around them do not count. -/
def Parts (clause key value : List Char) : Prop :=
  ∃ left right, clause = left ++ '=' :: right ∧ '=' ∉ left ∧ '=' ∉ right ∧ Text.Padded left key ∧
    Text.Padded right value

/-- What a clause can say. -/
inductive Says (clause : List Char) : Clause → Prop
  | change {state : DesiredState} {value : List Char} {recurrence : Recurrence}
    (hparts : Parts clause state.text.toList value) (hread : Recurrence.read (String.ofList value) = .ok recurrence) :
    Says clause (.change state (String.ofList value) recurrence)
  | count {value : List Char} {n : Nat} (hparts : Parts clause "count".toList value)
    (hnumber : Text.Numeral value n) (hheld : n ≤ Text.maxCount) : Says clause (.count n)

/-- What can be wrong with a clause. -/
inductive Fails (clause : List Char) : ScheduleError → Prop
  | form (hform : clause.count '=' ≠ 1) : Fails clause (.clauseForm (String.ofList clause))
  | key {key value : List Char} (hparts : Parts clause key value) (hstate : ∀ state : DesiredState,
    key ≠ state.text.toList) (hcount : key ≠ "count".toList) : Fails clause (.unknownKey (String.ofList key))
  | recurrence {state : DesiredState} {value : List Char} {e : ScheduleError}
    (hparts : Parts clause state.text.toList value) (hread : Recurrence.read (String.ofList value) = .error e) :
    Fails clause e
  | count {value : List Char} (hparts : Parts clause "count".toList value)
    (hnumber : ∀ n, Text.Numeral value n → Text.maxCount < n) : Fails clause (.notCount (String.ofList value))

variable {clause key value : List Char} {x : Clause} {e : ScheduleError}

private theorem Parts.count_eq_one (h : Parts clause key value) : clause.count '=' = 1 := by
  obtain ⟨left, right, rfl, hleft, hright, -, -⟩ := h
  simp [List.count_eq_zero_of_not_mem hleft, List.count_eq_zero_of_not_mem hright]

private theorem exists_parts (h : clause.count '=' = 1) : ∃ key value, Parts clause key value := by
  have hmem : '=' ∈ clause := List.count_pos_iff.mp (by omega)
  obtain ⟨left, right, rfl, hleft⟩ := List.eq_append_cons_of_mem hmem
  rw [List.count_append, List.count_cons_self, List.count_eq_zero_of_not_mem hleft] at h
  have hright : '=' ∉ right := List.count_eq_zero.mp (by omega)
  exact ⟨_, _, left, right, rfl, hleft, hright, Text.trim_eq_iff.mp rfl, Text.trim_eq_iff.mp rfl⟩

/-- Reading the parts of a clause. -/
private theorem read_of_parts (h : Parts clause key value) : read clause =
    if key = "running".toList then readChange .running value
    else if key = "stopped".toList then readChange .stopped value
    else if key = "count".toList then
      match Text.natural? Text.maxCount value with
      | some n => .ok (count n)
      | none => .error (.notCount (String.ofList value))
    else .error (.unknownKey (String.ofList key)) := by
  obtain ⟨left, right, hclause, hleft, hright, hkey, hvalue⟩ := h
  have hsplit := Text.split_eq_pair_iff.mpr ⟨hclause, hleft, hright⟩
  rw [← hkey.trim_eq, ← hvalue.trim_eq]
  unfold read
  rewrite [hsplit]
  rfl

private theorem read_of_count_ne (h : clause.count '=' ≠ 1) :
    read clause = .error (.clauseForm (String.ofList clause)) := by
  unfold read
  split
  · rename_i left right hsplit
    obtain ⟨hclause, hleft, hright⟩ := Text.split_eq_pair_iff.mp hsplit
    have hparts : Parts clause _ _ :=
      ⟨left, right, hclause, hleft, hright, Text.trim_eq_iff.mp rfl, Text.trim_eq_iff.mp rfl⟩
    exact absurd hparts.count_eq_one h
  · rfl

private theorem readChange_eq (state : DesiredState) (value : List Char) : readChange state value =
    (Recurrence.read (String.ofList value)).map (change state (String.ofList value)) := by
  unfold readChange
  dsimp only
  cases Recurrence.read (String.ofList value) <;> rfl

private theorem read_of_state {state : DesiredState} (h : Parts clause state.text.toList value) : read clause =
    (Recurrence.read (String.ofList value)).map (change state (String.ofList value)) := by
  rw [read_of_parts h, ← readChange_eq]
  cases state <;> rfl

private theorem read_of_count (h : Parts clause "count".toList value) : read clause =
    match Text.natural? Text.maxCount value with
    | some n => .ok (count n)
    | none => .error (.notCount (String.ofList value)) := by
  rw [read_of_parts h]
  rfl

private theorem Says.read_eq (h : Says clause x) : read clause = .ok x := by
  cases h with
  | change hparts hread => rw [read_of_state hparts, hread, Except.map]
  | count hparts hnumber hheld => rw [read_of_count hparts, Text.natural?_eq_some_iff.mpr ⟨hnumber, hheld⟩]

private theorem Fails.read_eq (h : Fails clause e) : read clause = .error e := by
  cases h with
  | form hform => exact read_of_count_ne hform
  | key hparts hstate hcount =>
    have hrunning := hstate .running
    have hstopped := hstate .stopped
    unfold DesiredState.text at hrunning hstopped
    rw [read_of_parts hparts, if_neg hrunning, if_neg hstopped, if_neg hcount]
  | recurrence hparts hread => rw [read_of_state hparts, hread, Except.map]
  | count hparts hnumber => rw [read_of_count hparts, Text.natural?_eq_none_iff.mpr hnumber]

/-- A clause says something, or something is wrong with it. -/
private theorem says_or_fails (clause : List Char) : (∃ x, Says clause x) ∨ ∃ e, Fails clause e := by
  by_cases hform : clause.count '=' = 1
  · obtain ⟨key, value, hparts⟩ := exists_parts hform
    by_cases hstate : ∃ state : DesiredState, key = state.text.toList
    · obtain ⟨state, rfl⟩ := hstate
      cases hread : Recurrence.read (String.ofList value) with
      | ok recurrence => exact Or.inl ⟨_, .change hparts hread⟩
      | error e => exact Or.inr ⟨e, .recurrence hparts hread⟩
    · by_cases hcount : key = "count".toList
      · subst hcount
        cases hread : Text.natural? Text.maxCount value with
        | some n =>
          obtain ⟨hnumber, hheld⟩ := Text.natural?_eq_some_iff.mp hread
          exact Or.inl ⟨_, .count hparts hnumber hheld⟩
        | none => exact Or.inr ⟨_, .count hparts (Text.natural?_eq_none_iff.mp hread)⟩
      · exact Or.inr ⟨_, .key hparts (fun state hkey => hstate ⟨state, hkey⟩) hcount⟩
  · exact Or.inr ⟨_, .form hform⟩

theorem read_eq_ok_iff : read clause = .ok x ↔ Says clause x :=
  (ok_iff_and_error_iff (fun _ => Says.read_eq) (fun _ => Fails.read_eq) (says_or_fails clause)).1 x

theorem read_eq_error_iff : read clause = .error e ↔ Fails clause e :=
  (ok_iff_and_error_iff (fun _ => Says.read_eq) (fun _ => Fails.read_eq) (says_or_fails clause)).2 e

/-! ### What clauses mean together -/

def isRunning : Clause → Bool
  | change state _ _ => state.isRunning
  | count _ => false

def count? : Clause → Option Nat
  | change _ _ _ => none
  | count n => some n

/-- The counts that stand before the next running clause. -/
def countsAhead (said : List Clause) : List Nat :=
  (said.takeWhile fun x => !x.isRunning).filterMap count?

/-- The changes in the order of their clauses. A running one has the last count before the next running one, or 0 if
there is none; a stopped one has 0. -/
def changes : List Clause → List Change
  | [] => []
  | .change .running cron recurrence :: rest =>
    { state := .running, count := (countsAhead rest).getLast?.getD 0, cron, recurrence } :: changes rest
  | .change .stopped cron recurrence :: rest => { state := .stopped, count := 0, cron, recurrence } :: changes rest
  | .count _ :: rest => changes rest

theorem countsAhead_cons_change (state : DesiredState) (cron : String) (recurrence : Recurrence) (rest : List Clause) :
    countsAhead (.change state cron recurrence :: rest) = if state.isRunning then [] else countsAhead rest := by
  cases state <;> rfl

theorem countsAhead_cons_count (n : Nat) (rest : List Clause) :
    countsAhead (.count n :: rest) = n :: countsAhead rest := rfl

private theorem countsAhead_concat_change (said : List Clause) (state : DesiredState) (cron : String)
    (recurrence : Recurrence) : countsAhead (said ++ [.change state cron recurrence]) = countsAhead said := by
  induction said with
  | nil => cases state <;> rfl
  | cons x said ih =>
    cases x with
    | change state' _ _ => rw [List.cons_append, countsAhead_cons_change, countsAhead_cons_change, ih]
    | count n => rw [List.cons_append, countsAhead_cons_count, countsAhead_cons_count, ih]

private theorem countsAhead_concat_count (said : List Clause) (n : Nat) :
    countsAhead (said ++ [.count n]) = if said.any isRunning then countsAhead said else countsAhead said ++ [n] := by
  induction said with
  | nil => rfl
  | cons x said ih =>
    cases x with
    | change state _ _ =>
      rw [List.cons_append, countsAhead_cons_change, countsAhead_cons_change, ih]
      cases state <;> simp [isRunning, DesiredState.isRunning]
    | count m =>
      rw [List.cons_append, countsAhead_cons_count, countsAhead_cons_count, ih]
      simp only [List.any_cons, isRunning, Bool.false_or]
      split <;> rfl

private theorem changes_concat_change (said : List Clause) (state : DesiredState) (cron : String)
    (recurrence : Recurrence) :
    changes (said ++ [.change state cron recurrence]) =
      changes said ++ [{ state := state, count := 0, cron := cron, recurrence := recurrence }] := by
  induction said with
  | nil => cases state <;> rfl
  | cons x said ih =>
    cases x with
    | change state' _ _ =>
      cases state' <;> simp only [List.cons_append, changes, ih, countsAhead_concat_change]
    | count n => simp only [List.cons_append, changes, ih]

private theorem any_isRunning_changes (said : List Clause) :
    (changes said).any (·.state.isRunning) = said.any isRunning := by
  induction said with
  | nil => rfl
  | cons x said ih =>
    cases x with
    | change state _ _ => cases state <;> simp only [changes, List.any_cons, isRunning, ih]
    | count n => simp only [changes, List.any_cons, isRunning, Bool.false_or, ih]

/-- A count that no running clause precedes changes nothing. -/
private theorem changes_concat_count_of_stray {said : List Clause} (h : said.any isRunning = false) (n : Nat) :
    changes (said ++ [.count n]) = changes said := by
  induction said with
  | nil => rfl
  | cons x said ih =>
    rw [List.any_cons, Bool.or_eq_false_iff] at h
    cases x with
    | change state _ _ =>
      cases state with
      | running => cases h.1
      | stopped => simp only [List.cons_append, changes, ih h.2]
    | count m => simp only [List.cons_append, changes, ih h.2]

end Clause

/-! ### Reading goes forward -/

namespace Reading

open Clause (countsAhead)

private theorem countLast_eq_none_iff {n : Nat} {cs : List Change} :
    countLast n cs = none ↔ cs.any (·.state.isRunning) = false := by
  induction cs with
  | nil => exact iff_of_true rfl rfl
  | cons c cs ih =>
    rw [countLast, List.any_cons, Bool.or_eq_false_iff, ← ih]
    cases countLast n cs with
    | some counted => simp
    | none => cases c.state.isRunning <;> simp

/-- A count goes to the last running change before it. -/
private theorem countLast_changes (n : Nat) {said : List Clause} (h : said.any Clause.isRunning = true) :
    countLast n (Clause.changes said) = some (Clause.changes (said ++ [.count n])) := by
  induction said with
  | nil => cases h
  | cons x said ih =>
    by_cases hlater : said.any Clause.isRunning = true
    · -- A running clause that comes later takes the count, and no other sees it.
      have ih := ih hlater
      cases x with
      | change state _ _ =>
        cases state <;>
          simp only [List.cons_append, Clause.changes, countLast, ih, Clause.countsAhead_concat_count, hlater, if_true]
      | count m => simpa only [List.cons_append, Clause.changes] using ih
    · rw [Bool.not_eq_true] at hlater
      have hnone : countLast n (Clause.changes said) = none := by
        rw [countLast_eq_none_iff, Clause.any_isRunning_changes, hlater]
      rw [List.any_cons, hlater, Bool.or_false] at h
      cases x with
      | change state _ _ =>
        cases state with
        | running =>
          simp [Clause.changes, countLast, hnone, Clause.changes_concat_count_of_stray hlater,
            Clause.countsAhead_concat_count, hlater, DesiredState.isRunning]
        | stopped => cases h
      | count m => cases h

/-- What clauses mean. -/
def ofSaid (said : List Clause) : Reading :=
  { changes := Clause.changes said, warnings := (countsAhead said).map .countWithoutRunning }

/-- One clause more. -/
theorem add_ofSaid (said : List Clause) (x : Clause) : (ofSaid said).add x = ofSaid (said ++ [x]) := by
  cases x with
  | change state cron recurrence =>
    simp only [ofSaid, add, Clause.changes_concat_change, Clause.countsAhead_concat_change]
  | count n =>
    by_cases h : said.any Clause.isRunning = true
    · simp only [ofSaid, add, countLast_changes n h, Clause.countsAhead_concat_count, h, if_true]
    · rw [Bool.not_eq_true] at h
      have hnone : countLast n (Clause.changes said) = none := by
        rw [countLast_eq_none_iff, Clause.any_isRunning_changes, h]
      simp [ofSaid, add, hnone, Clause.changes_concat_count_of_stray h, Clause.countsAhead_concat_count, h]

private theorem extend_of_said {clauses : List (List Char)} {more : List Clause}
    (h : List.Forall₂ Clause.Says clauses more) (said : List Clause) :
    (ofSaid said).extend clauses = (ofSaid (said ++ more), none) := by
  induction h generalizing said with
  | nil => rw [List.append_nil, extend]
  | cons hx _ ih =>
    rw [extend, hx.read_eq]
    dsimp only
    rw [add_ofSaid, ih, List.append_assoc, List.singleton_append]

/-- Reading stops at the first faulty clause, whatever comes after. -/
private theorem extend_of_fails {before : List (List Char)} {more : List Clause}
    (h : List.Forall₂ Clause.Says before more) {bad : List Char} {e : ScheduleError} (hfails : Clause.Fails bad e)
    (after : List (List Char)) (said : List Clause) :
    (ofSaid said).extend (before ++ bad :: after) = (ofSaid (said ++ more), some e) := by
  induction h generalizing said with
  | nil => rw [List.nil_append, List.append_nil, extend, hfails.read_eq]
  | cons hx _ ih =>
    rw [List.cons_append, extend, hx.read_eq]
    dsimp only
    rw [add_ofSaid, ih, List.append_assoc, List.singleton_append]

end Reading

/-! ### Schedules -/

namespace Schedule

/-- The clauses of a text: what stands between its full stops, without the blanks around it, less what is empty then and
up to the first comment. -/
def Clauses (text : List Char) (clauses : List (List Char)) : Prop :=
  ∃ pieces values, Text.Pieces '.' text pieces ∧ List.Forall₂ Text.Padded pieces values ∧
    clauses = (values.filter (· ≠ [])).takeWhile fun value => ¬"//".toList <+: value

/-- Blanks around the whole text do not count, because each clause is trimmed anyway. -/
theorem clauses_eq (text : List Char) : clauses text =
    (((Text.split (· == '.') text).map Text.trim).filter (· ≠ [])).takeWhile fun c => ¬"//".toList <+: c := by
  have hstop : ∀ c, Text.isBlank c = true → (c == '.') = false := by
    intro c hc
    rw [beq_eq_false_iff_ne]
    rintro rfl
    exact absurd hc (by decide)
  have hempty : (fun c : List Char => !c.isEmpty) = fun c => decide (c ≠ []) := by
    funext c
    cases c <;> rfl
  have hcomment : (fun c => !"//".toList.isPrefixOf c) = fun c => decide ¬"//".toList <+: c := by
    funext c
    have hbegins : "//".toList.isPrefixOf c = decide ("//".toList <+: c) := by
      rw [Bool.eq_iff_iff, List.isPrefixOf_iff_prefix, decide_eq_true_eq]
    rw [hbegins, decide_not]
  rw [clauses, Text.map_trim_split_trim hstop, hempty, hcomment]

theorem clauses_eq_iff {text : List Char} {found : List (List Char)} : clauses text = found ↔ Clauses text found := by
  rw [clauses_eq]
  constructor
  · rintro rfl
    exact ⟨_, _, Text.split_eq_iff.mp rfl, Text.map_trim_eq_iff.mp rfl, rfl⟩
  · rintro ⟨pieces, values, hpieces, hvalues, rfl⟩
    rw [Text.split_eq_iff.mpr hpieces, Text.map_trim_eq_iff.mpr hvalues]

theorem read_of_said {text : String} {said : List Clause}
    (h : List.Forall₂ Clause.Says (clauses text.toList) said) : read text = .ok (Reading.ofSaid said) := by
  have hempty : ({} : Reading) = Reading.ofSaid [] := rfl
  rw [read, scan, hempty, Reading.extend_of_said h]
  rfl

private theorem read_of_fails {text : String} {before after : List (List Char)} {bad : List Char} {said : List Clause}
    {e : ScheduleError} (hclauses : clauses text.toList = before ++ bad :: after)
    (h : List.Forall₂ Clause.Says before said) (hfails : Clause.Fails bad e) : read text = .error e := by
  have hempty : ({} : Reading) = Reading.ofSaid [] := rfl
  rw [read, scan, hempty, hclauses, Reading.extend_of_fails h hfails]

private theorem read_iff (text : String) :
    (∀ reading, read text = .ok reading ↔
      ∃ said, List.Forall₂ Clause.Says (clauses text.toList) said ∧ reading = Reading.ofSaid said) ∧
    ∀ e, read text = .error e ↔ ∃ before bad after, clauses text.toList = before ++ bad :: after ∧
      (∀ c ∈ before, ∃ x, Clause.Says c x) ∧ Clause.Fails bad e := by
  refine ok_iff_and_error_iff ?_ ?_ ?_
  · rintro reading ⟨said, hsaid, rfl⟩
    exact read_of_said hsaid
  · rintro e ⟨before, bad, after, hclauses, hbefore, hfails⟩
    obtain ⟨said, hsaid⟩ := exists_forall₂_iff.mpr hbefore
    exact read_of_fails hclauses hsaid hfails
  · rcases forall₂_or_first Clause.says_or_fails (clauses text.toList) with
      ⟨said, hsaid⟩ | ⟨before, bad, after, said, hclauses, hsaid, e, hfails⟩
    · exact Or.inl ⟨_, said, hsaid, rfl⟩
    · exact Or.inr ⟨e, before, bad, after, hclauses, exists_forall₂_iff.mp ⟨said, hsaid⟩, hfails⟩

theorem read_eq_ok_iff {text : String} {reading : Reading} : read text = .ok reading ↔
    ∃ said, List.Forall₂ Clause.Says (clauses text.toList) said ∧ reading = Reading.ofSaid said :=
  (read_iff text).1 reading

theorem read_eq_error_iff {text : String} {e : ScheduleError} : read text = .error e ↔
    ∃ before bad after, clauses text.toList = before ++ bad :: after ∧ (∀ c ∈ before, ∃ x, Clause.Says c x) ∧
      Clause.Fails bad e :=
  (read_iff text).2 e

/-- What a schedule says. Its text falls into clauses in one way. It can be read exactly if each of them says something;
then its changes and warnings are what the clauses mean together. Otherwise its error is that of the first clause at
fault. -/
theorem read_meaning (text : String) : ∃ clauses, (∀ found, Clauses text.toList found ↔ found = clauses) ∧
    ((∃ reading, read text = .ok reading) ↔ ∀ c ∈ clauses, ∃ x, Clause.Says c x) ∧
    (∀ reading, read text = .ok reading ↔ ∃ said, List.Forall₂ Clause.Says clauses said ∧
      reading.changes = Clause.changes said ∧
      reading.warnings = (Clause.countsAhead said).map .countWithoutRunning) ∧
    ∀ e, read text = .error e ↔ ∃ before bad after, clauses = before ++ bad :: after ∧
      (∀ c ∈ before, ∃ x, Clause.Says c x) ∧ Clause.Fails bad e := by
  refine ⟨clauses text.toList, fun found => clauses_eq_iff.symm.trans eq_comm, ?_, fun reading => ?_,
    fun e => read_eq_error_iff⟩
  · rw [← exists_forall₂_iff]
    constructor
    · rintro ⟨reading, h⟩
      obtain ⟨said, hsaid, -⟩ := read_eq_ok_iff.mp h
      exact ⟨said, hsaid⟩
    · rintro ⟨said, hsaid⟩
      exact ⟨_, read_of_said hsaid⟩
  · have hfields (said : List Clause) : reading = Reading.ofSaid said ↔ reading.changes = Clause.changes said ∧
        reading.warnings = (Clause.countsAhead said).map .countWithoutRunning := by
      cases reading
      exact Iff.of_eq (Reading.mk.injEq ..)
    simp only [read_eq_ok_iff, hfields]

end Schedule

end ServiceHours
