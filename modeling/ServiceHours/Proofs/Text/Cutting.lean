import Mathlib.Data.List.Infix
import ServiceHours.Text.Segment

/-!
# Cutting at the last occurrence

Where a text is cut by `splitLast`, in characters and in the bytes of its encoding.

* There is no cut exactly if the pattern does not stand in the text (`splitLast_eq_none_iff`), and no occurrence begins
  behind the one at the cut (`isPrefix_of_splitLast`). Occurrences of a pattern whose first character does not come
  again cannot overlap, so the cut is at the one with no other behind it (`splitLast_eq_some_iff`).
* Where the bytes of a pattern stand in those of a text, characters begin at both ends of them (`StandsAt.isValid`). So
  they stand only where the characters of the pattern stand (`standsAt_iff`).
* `cutLast?` searches the bytes from the end and cuts at byte offsets. It never cuts inside a character, and its parts
  are those of `splitLast` (`cutLast?_eq`).
-/

namespace ServiceHours.Text

/-! ### The last occurrence -/

section Characters

variable {pat cs before after : List Char}

theorem splitLast_eq_none_iff (hpat : pat ≠ []) : splitLast pat cs = none ↔ ¬pat <:+: cs := by
  induction cs with
  | nil => simp [splitLast, hpat]
  | cons c cs ih =>
    rw [splitLast, List.infix_cons_iff]
    cases hcut : splitLast pat cs with
    | some parts =>
      have hstands : pat <:+: cs := by
        by_contra hnot
        rw [ih.mpr hnot] at hcut
        cases hcut
      simp [hstands]
    | none =>
      have hnot : ¬pat <:+: cs := ih.mp hcut
      simp [hnot]

/-- No occurrence begins behind the one at the cut. -/
theorem isPrefix_of_splitLast (hpat : pat ≠ []) (h : splitLast pat cs = some (before, after))
    {front rest : List Char} (hcs : cs = front ++ pat ++ rest) : front <+: before := by
  induction cs generalizing before front with
  | nil => simp [splitLast] at h
  | cons c cs ih =>
    cases front with
    | nil => exact List.nil_prefix
    | cons d front =>
      obtain ⟨rfl, htail⟩ := List.cons_eq_cons.mp hcs
      rw [splitLast] at h
      cases hcut : splitLast pat cs with
      | some parts =>
        rw [hcut] at h
        cases h
        exact List.cons_prefix_cons.mpr ⟨rfl, ih hcut htail⟩
      | none => exact absurd ⟨front, rest, htail.symm⟩ ((splitLast_eq_none_iff hpat).mp hcut)

/-- If the first character of the pattern does not come again, the cut is at the occurrence with no other behind it. -/
theorem splitLast_eq_some_iff {c : Char} (hc : c ∉ pat) : splitLast (c :: pat) cs = some (before, after) ↔
    cs = before ++ c :: pat ++ after ∧ ¬c :: pat <:+: after := by
  have hpat : c :: pat ≠ [] := List.cons_ne_nil c pat
  constructor
  · intro h
    refine ⟨splitLast_append h, ?_⟩
    rintro ⟨front, rest, rfl⟩
    have hlater : cs = before ++ c :: pat ++ front ++ c :: pat ++ rest := by
      rw [splitLast_append h]
      simp
    have hlength := (isPrefix_of_splitLast hpat h hlater).length_le
    simp only [List.length_append, List.length_cons] at hlength
    omega
  · rintro ⟨hcs, hlast⟩
    cases hcut : splitLast (c :: pat) cs with
    | none => exact absurd ⟨before, after, hcs.symm⟩ ((splitLast_eq_none_iff hpat).mp hcut)
    | some parts =>
      obtain ⟨front, rest⟩ := parts
      obtain ⟨between, rfl⟩ := isPrefix_of_splitLast hpat hcut hcs
      have hsame : c :: pat ++ after = between ++ (c :: pat ++ rest) := by
        have hwhole := hcs.symm.trans (splitLast_append hcut)
        simpa using hwhole
      cases between with
      | nil => simpa using hsame.symm
      | cons d between =>
        -- The later occurrence begins either behind the first one or, which `hc` excludes, inside of it.
        exfalso
        obtain ⟨-, hsame⟩ := List.cons_eq_cons.mp hsame
        rcases List.append_eq_append_iff.mp hsame with ⟨skipped, -, rfl⟩ | ⟨inside, rfl, hinside⟩
        · exact hlast ⟨skipped, rest, by simp⟩
        · cases inside with
          | nil => exact hlast ⟨[], rest, by simpa using hinside⟩
          | cons x inside =>
            obtain ⟨rfl, -⟩ := List.cons_eq_cons.mp hinside
            exact hc (by simp)

end Characters

/-! ### Byte offsets -/

/-- The bytes of `pat` stand in those of the text at the offset. -/
def StandsAt (pat text : String) (offset : Nat) : Prop :=
  text.toByteArray.extract offset (offset + pat.utf8ByteSize) = pat.toByteArray

instance (pat text : String) (offset : Nat) : Decidable (StandsAt pat text offset) :=
  inferInstanceAs (Decidable (_ = _))

/-- The last offset in front of `limit` at which `pat` stands, searched from the end. -/
def lastOffsetBelow? (pat text : String) : Nat → Option Nat
  | 0 => none
  | limit + 1 => if StandsAt pat text limit then some limit else lastOffsetBelow? pat text limit

/-- The last offset at which `pat` stands. -/
def lastOffset? (pat text : String) : Option Nat :=
  lastOffsetBelow? pat text (text.utf8ByteSize + 1)

/-- The text up to a byte offset. There is none if the offset falls inside a character or beyond the end. -/
def upTo? (text : String) (offset : Nat) : Option String :=
  if h : String.Pos.Raw.IsValid text ⟨offset⟩ then some (text.sliceTo (text.pos ⟨offset⟩ h)).copy else none

/-- The text from a byte offset on. There is none if the offset falls inside a character or beyond the end. -/
def from? (text : String) (offset : Nat) : Option String :=
  if h : String.Pos.Raw.IsValid text ⟨offset⟩ then some (text.sliceFrom (text.pos ⟨offset⟩ h)).copy else none

/-- The parts before and after the last `pat`, if it stands in the text, cut at byte offsets. There is no result at all
if a cut falls inside a character. -/
def cutLast? (pat text : String) : Option (Option (String × String)) :=
  match lastOffset? pat text with
  | none => some none
  | some offset => do
    let before ← upTo? text offset
    let after ← from? text (offset + pat.utf8ByteSize)
    return some (before, after)

section Bytes

variable {pat text : String} {offset limit : Nat}

/-- Characters begin at both ends of the bytes of a pattern, because these are well formed by themselves. -/
theorem StandsAt.isValid (hpat : pat ≠ "") (h : StandsAt pat text offset) :
    String.Pos.Raw.IsValid text ⟨offset⟩ ∧ String.Pos.Raw.IsValid text ⟨offset + pat.utf8ByteSize⟩ := by
  have hpos : 0 < pat.utf8ByteSize := Nat.pos_of_ne_zero fun h0 => hpat (String.utf8ByteSize_eq_zero_iff.mp h0)
  have hend : offset + pat.utf8ByteSize ≤ text.utf8ByteSize := by
    have hsize := congrArg ByteArray.size h
    simp only [ByteArray.size_extract, String.size_toByteArray] at hsize
    omega
  have hvalid := (String.Pos.Raw.isValidUTF8_extract_iff (s := text) ⟨offset⟩ ⟨offset + pat.utf8ByteSize⟩
    (Nat.le_add_right _ _) hend).mp (h ▸ pat.isValidUTF8)
  exact hvalid.resolve_left (by simp [String.Pos.Raw.ext_iff, hpat])

/-- The bytes of a pattern stand only where its characters stand. -/
theorem standsAt_iff (hpat : pat ≠ "") :
    StandsAt pat text offset ↔ ∃ before after, text = before ++ pat ++ after ∧ before.utf8ByteSize = offset := by
  constructor
  · intro h
    obtain ⟨hfirst, hlast⟩ := h.isValid hpat
    obtain ⟨before, rest, htext, hbefore⟩ := String.Pos.Raw.isValid_iff_exists_append.mp hfirst
    obtain ⟨front, after, htext', hfront⟩ := String.Pos.Raw.isValid_iff_exists_append.mp hlast
    replace hbefore : offset = before.utf8ByteSize := congrArg String.Pos.Raw.byteIdx hbefore
    replace hfront : offset + pat.utf8ByteSize = front.utf8ByteSize := congrArg String.Pos.Raw.byteIdx hfront
    have hjoin : front = before ++ pat := by
      rw [← String.toByteArray_inj, String.toByteArray_append]
      calc front.toByteArray
        _ = text.toByteArray.extract 0 (offset + pat.utf8ByteSize) := by
          rw [htext', String.toByteArray_append, ByteArray.extract_append_eq_left (by simpa using hfront)]
        _ = text.toByteArray.extract 0 offset ++ text.toByteArray.extract offset (offset + pat.utf8ByteSize) :=
          ByteArray.extract_eq_extract_append_extract offset (Nat.zero_le _) (Nat.le_add_right _ _)
        _ = before.toByteArray ++ pat.toByteArray := by
          rw [h, htext, String.toByteArray_append, ByteArray.extract_append_eq_left (by simpa using hbefore)]
    exact ⟨before, after, by rw [htext', hjoin], hbefore.symm⟩
  · rintro ⟨before, after, rfl, rfl⟩
    rw [StandsAt, String.append_assoc, String.toByteArray_append, ← Nat.add_zero before.utf8ByteSize, Nat.add_assoc,
      ← String.size_toByteArray, ByteArray.extract_append_size_add, Nat.zero_add, ← String.size_toByteArray,
      String.toByteArray_append, ByteArray.extract_append_eq_left rfl]

private theorem lastOffsetBelow?_eq_some_iff : lastOffsetBelow? pat text limit = some offset ↔
    offset < limit ∧ StandsAt pat text offset ∧ ∀ later, offset < later → later < limit → ¬StandsAt pat text later := by
  induction limit with
  | zero => simp [lastOffsetBelow?]
  | succ limit ih =>
    rw [lastOffsetBelow?]
    split
    · rename_i hstands
      constructor
      · rintro ⟨⟩
        exact ⟨Nat.lt_succ_self _, hstands, fun later hlater hlimit => by omega⟩
      · rintro ⟨hlt, -, hlast⟩
        have hle : ¬offset < limit := fun hlt => hlast limit hlt (Nat.lt_succ_self limit) hstands
        rw [Nat.le_antisymm (Nat.le_of_lt_succ hlt) (Nat.le_of_not_lt hle)]
    · rename_i hnot
      rw [ih]
      constructor
      · rintro ⟨hlt, hstands, hlast⟩
        refine ⟨Nat.lt_succ_of_lt hlt, hstands, fun later hlater hlimit => ?_⟩
        rcases Nat.lt_succ_iff_lt_or_eq.mp hlimit with hlimit | rfl
        · exact hlast later hlater hlimit
        · exact hnot
      · rintro ⟨hlt, hstands, hlast⟩
        have hne : offset ≠ limit := by
          rintro rfl
          exact hnot hstands
        exact ⟨by omega, hstands, fun later hlater hlimit => hlast later hlater (Nat.lt_succ_of_lt hlimit)⟩

private theorem lastOffsetBelow?_eq_none_iff :
    lastOffsetBelow? pat text limit = none ↔ ∀ offset < limit, ¬StandsAt pat text offset := by
  induction limit with
  | zero => simp [lastOffsetBelow?]
  | succ limit ih =>
    rw [lastOffsetBelow?, Nat.forall_lt_succ_right, ← ih]
    split <;> simp [*]

private theorem isValid_append (before after : String) :
    String.Pos.Raw.IsValid (before ++ after) ⟨before.utf8ByteSize⟩ :=
  String.Pos.Raw.isValid_iff_exists_append.mpr ⟨before, after, rfl, rfl⟩

private theorem splits_append (before after : String) :
    ((before ++ after).pos ⟨before.utf8ByteSize⟩ (isValid_append before after)).Splits before after :=
  ⟨rfl, rfl⟩

private theorem upTo?_append (before after : String) : upTo? (before ++ after) before.utf8ByteSize = some before := by
  rw [upTo?, dif_pos (isValid_append before after), (String.Pos.splits _).eq_left (splits_append before after)]

private theorem from?_append (before after : String) : from? (before ++ after) before.utf8ByteSize = some after := by
  rw [from?, dif_pos (isValid_append before after), (String.Pos.splits _).eq_right (splits_append before after)]

/-- The parts join to the whole again. -/
theorem eq_append_of_splitLast {parts : List Char × List Char} (h : splitLast pat.toList text.toList = some parts) :
    text = String.ofList parts.1 ++ pat ++ String.ofList parts.2 := by
  rw [← String.toList_inj, splitLast_append h]
  simp

/-- The search on bytes stops where the characters are cut. -/
private theorem lastOffset?_eq (hpat : pat ≠ "") : lastOffset? pat text =
    (splitLast pat.toList text.toList).map fun parts => (String.ofList parts.1).utf8ByteSize := by
  have hchars : pat.toList ≠ [] := fun h => hpat (String.toList_eq_nil_iff.mp h)
  cases hcut : splitLast pat.toList text.toList with
  | none =>
    refine lastOffsetBelow?_eq_none_iff.mpr fun offset _ hstands => ?_
    obtain ⟨before, after, rfl, -⟩ := (standsAt_iff hpat).mp hstands
    exact (splitLast_eq_none_iff hchars).mp hcut ⟨before.toList, after.toList, by simp⟩
  | some parts =>
    have htext := eq_append_of_splitLast hcut
    rw [Option.map_some]
    refine lastOffsetBelow?_eq_some_iff.mpr ⟨?_, (standsAt_iff hpat).mpr ⟨_, _, htext, rfl⟩,
      fun later hlater _ hstands => ?_⟩
    · rw [htext, String.utf8ByteSize_append, String.utf8ByteSize_append]
      omega
    · obtain ⟨front, rest, hrest, rfl⟩ := (standsAt_iff hpat).mp hstands
      have hlist : text.toList = front.toList ++ pat.toList ++ rest.toList := by simp [hrest]
      obtain ⟨between, hbetween⟩ := isPrefix_of_splitLast hchars hcut hlist
      rw [← hbetween, String.ofList_append, String.ofList_toList, String.utf8ByteSize_append] at hlater
      omega

/-- The search on bytes and the cuts at byte offsets find the parts that the characters have. -/
theorem cutLast?_eq (hpat : pat ≠ "") : cutLast? pat text =
    some ((splitLast pat.toList text.toList).map fun parts => (String.ofList parts.1, String.ofList parts.2)) := by
  rw [cutLast?, lastOffset?_eq hpat]
  cases hcut : splitLast pat.toList text.toList with
  | none => rfl
  | some parts =>
    have htext := eq_append_of_splitLast hcut
    have hbefore : upTo? text (String.ofList parts.1).utf8ByteSize = some (String.ofList parts.1) := by
      rw [htext, String.append_assoc, upTo?_append]
    have hafter :
        from? text ((String.ofList parts.1).utf8ByteSize + pat.utf8ByteSize) = some (String.ofList parts.2) := by
      rw [htext, ← String.utf8ByteSize_append, from?_append]
    simp [hbefore, hafter]

end Bytes

end ServiceHours.Text
