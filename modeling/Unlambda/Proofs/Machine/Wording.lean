import Unlambda.Machine.Log

/-!
# The wording of a log

A log is read as a sequence of records, each of which is a level and a line of text. Of a
continuation a record tells nothing but the depth, and of a result the text. All that it tells
can be read off it: no two kinds of records at the same level begin with the same character, and
a number ends where a character follows that is no digit.

## Main definitions

* `Unlambda.Machine.Note`: what a record tells
* `Unlambda.Machine.Note.record`, `Unlambda.Machine.LogEntry.record`: the record of a note, and
  of an entry

## Main results

* `Unlambda.Machine.toString_append_inj`: a number can be split off from a text
* `Unlambda.Machine.Note.record_injective`: a record tells its note
-/

namespace Unlambda.Machine

/-! ### Numbers in front of a text -/

theorem isDigit_of_mem_toString {n : Nat} {x : Char} (h : x ∈ (toString n).toList) :
    x.isDigit = true := by
  rw [Nat.toString_eq_ofList_toDigits, String.toList_ofList] at h
  exact Nat.isDigit_of_mem_toDigits (by decide) (by decide) h

theorem eq_of_toString_eq {m n : Nat} (h : toString m = toString n) : m = n := by
  rw [Nat.toString_eq_ofList_toDigits, Nat.toString_eq_ofList_toDigits, String.ofList_inj] at h
  calc m
    _ = Nat.ofDigitChars 10 (Nat.toDigits 10 m) 0 := Nat.ofDigitChars_ten_toDigits.symm
    _ = Nat.ofDigitChars 10 (Nat.toDigits 10 n) 0 := by rw [h]
    _ = n := Nat.ofDigitChars_ten_toDigits

/-- The digits of a number cannot go on behind a character that is no digit. -/
theorem eq_nil_of_toString_eq_append {n : Nat} {x : Char} {digits rest text text' : List Char}
    (hx : x.isDigit = false) (hdigits : (toString n).toList = digits ++ rest)
    (hrest : x :: text = rest ++ x :: text') : rest = [] := by
  cases rest with
  | nil => rfl
  | cons y rest =>
    obtain ⟨rfl, -⟩ := List.cons.inj hrest
    have hmem : x ∈ (toString n).toList := hdigits ▸ List.mem_append_right _ List.mem_cons_self
    rw [isDigit_of_mem_toString hmem] at hx
    cases hx

/-- **A number can be split off from a text** that goes on with a character that is no digit. -/
theorem toString_append_inj {m n : Nat} {x : Char} {text text' : List Char}
    (hx : x.isDigit = false)
    (h : (toString m).toList ++ x :: text = (toString n).toList ++ x :: text') :
    m = n ∧ text = text' := by
  have hdigits : (toString m).toList = (toString n).toList := by
    rcases List.append_eq_append_iff.mp h with ⟨rest, hlonger, hrest⟩ | ⟨rest, hlonger, hrest⟩
    · rw [hlonger, eq_nil_of_toString_eq_append hx hlonger hrest, List.append_nil]
    · rw [hlonger, eq_nil_of_toString_eq_append hx hlonger hrest, List.append_nil]
  rw [hdigits] at h
  exact ⟨eq_of_toString_eq (String.toList_inj.mp hdigits),
    (List.cons.inj (List.append_cancel_left h)).2⟩

/-! ### Records -/

/-- A record of a log: its level and its wording. -/
abbrev Record := LogLevel × String

/-- What a record tells. -/
inductive Note
  | starting (size : Nat)
  | capturing (depth : Nat)
  | resuming (depth : Nat)
  | exiting (result : String)
  | finished (steps : Nat) (result : String)
  | stopping (steps : Nat)

namespace Note

/-- The record that tells a note. -/
def record : Note → Record
  | starting size => (.debug, "evaluating a program of " ++ toString size ++ " primitives")
  | capturing depth => (.trace, "capturing a continuation of depth " ++ toString depth)
  | resuming depth => (.trace, "resuming a continuation of depth " ++ toString depth)
  | exiting result => (.trace, "exiting with " ++ result)
  | finished steps result =>
    (.debug, "finished after " ++ toString steps ++ " steps with " ++ result)
  | stopping steps => (.warn, "stopping after " ++ toString steps ++ " steps")

/-- The level of a note and the first character of its wording, by which its kind is known. -/
def mark : Note → LogLevel × Char
  | starting _ => (.debug, 'e')
  | capturing _ => (.trace, 'c')
  | resuming _ => (.trace, 'r')
  | exiting _ => (.trace, 'e')
  | finished _ _ => (.debug, 'f')
  | stopping _ => (.warn, 's')

theorem mark_eq (note : Note) : note.record.2.toList.head? = some note.mark.2 := by
  cases note <;> simp only [record, mark, String.toList_append] <;> rfl

theorem level_record (note : Note) : note.record.1 = note.mark.1 := by cases note <;> rfl

/-- **A record tells its note.** -/
theorem record_injective : Function.Injective record := by
  intro a b h
  have hmark : a.mark = b.mark := by
    refine Prod.ext ?_ (Option.some.inj ?_)
    · rw [← level_record, ← level_record, h]
    · rw [← mark_eq, ← mark_eq, h]
  have hword : a.record.2 = b.record.2 := congrArg Prod.snd h
  -- The marks leave nothing but pairs of the same kind.
  cases a <;> cases b <;> simp only [mark, Prod.mk.injEq, reduceCtorEq, false_and, Char.reduceEq,
    and_false] at hmark <;>
    simp only [record, String.append_right_inj, String.append_left_inj,
      String.append_assoc] at hword
  case starting.starting m n =>
    rw [eq_of_toString_eq hword]
  case capturing.capturing m n =>
    rw [eq_of_toString_eq hword]
  case resuming.resuming m n =>
    rw [eq_of_toString_eq hword]
  case exiting.exiting r s =>
    rw [hword]
  case finished.finished m r n s =>
    have hlist := congrArg String.toList hword
    simp only [String.toList_append] at hlist
    obtain ⟨rfl, hresult⟩ := toString_append_inj (by decide : ' '.isDigit = false) hlist
    rw [String.toList_inj.mp (List.append_cancel_left hresult)]
  case stopping.stopping m n =>
    rw [eq_of_toString_eq hword]

end Note

/-- What the record of an entry tells. -/
def LogEntry.note : LogEntry → Note
  | starting size => .starting size
  | capturing k => .capturing k.depth
  | resuming k => .resuming k.depth
  | exiting result => .exiting result.text
  | finished steps result => .finished steps result.text
  | stopping steps => .stopping steps

/-- An entry as it is read in a log. -/
def LogEntry.record (entry : LogEntry) : Record := (entry.level, entry.message)

namespace LogEntry

variable {entry : LogEntry} {entries : List LogEntry} {note : Note} {before behind : List Record}

theorem record_eq (entry : LogEntry) : entry.record = entry.note.record := by
  cases entry <;> rfl

theorem record_eq_iff : entry.record = note.record ↔ entry.note = note := by
  rw [record_eq]
  exact Note.record_injective.eq_iff

theorem note_eq_exiting_iff {result : String} :
    entry.note = .exiting result ↔ ∃ v, entry = .exiting v ∧ v.text = result := by
  cases entry <;> simp [note]

theorem note_eq_resuming_iff {depth : Nat} :
    entry.note = .resuming depth ↔ ∃ k, entry = .resuming k ∧ k.depth = depth := by
  cases entry <;> simp [note]

/-- A record that is found among those of a log has been told by an entry. -/
theorem exists_entry_of_map_eq (h : entries.map record = before ++ note.record :: behind) :
    ∃ front entry back, entries = front ++ entry :: back ∧ entry.note = note ∧
      front.map record = before ∧ back.map record = behind := by
  obtain ⟨front, rest, rfl, hfront, hrest⟩ := List.map_eq_append_iff.mp h
  obtain ⟨entry, back, rfl, hentry, hback⟩ := List.map_eq_cons_iff.mp hrest
  exact ⟨front, entry, back, rfl, record_eq_iff.mp hentry, hfront, hback⟩

end LogEntry

end Unlambda.Machine
