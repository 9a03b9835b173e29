import LatentFactor.Text.Tabular
import Mathlib

set_option autoImplicit false

namespace LatentFactor.Tabular

structure Ordinary (b : UInt8) : Prop where
  notTab : b ≠ Scanner.tab
  notEnd : Scanner.isLineEnd b = false
  notMark : b ≠ Scanner.quotation

def joined : List (List UInt8) → List UInt8
  | [] => []
  | [field] => field
  | field :: rest => field ++ Scanner.tab :: joined rest

def written (row : List (List UInt8)) : List UInt8 := joined row ++ [Scanner.lineFeed]

-- A row that has a line. One empty field would make an empty line, which is no record.
structure Row (row : List (List UInt8)) : Prop where
  nonempty : row ≠ []
  visible : row ≠ [[]]
  ordinary : ∀ field ∈ row, ∀ b ∈ field, Ordinary b

namespace Scanner

-- Outside quotation marks, with the complete rows, and the fields and bytes of the current one.
structure Holds (scanner : Scanner) (rows : List (List (List UInt8)))
    (fields : List (List UInt8)) (field : List UInt8) : Prop where
  unquoted : scanner.mode = .recordStart ∨ scanner.mode = .fieldStart ∨ scanner.mode = .plain
  blank : scanner.mode = .recordStart ↔ fields = [] ∧ field = []
  rows : scanner.records.toList.map Record.fields = rows
  fields : scanner.fields = fields.reverse
  field : scanner.field = field.reverse

section Step

variable {scanner : Scanner} {rows : List (List (List UInt8))} {fields : List (List UInt8)}
  {field : List UInt8} {b : UInt8}

theorem step_eq (holds : scanner.Holds rows fields field) (notMark : b ≠ quotation)
    (notBlank : scanner.mode = .recordStart → isLineEnd b = false) :
    scanner.step b = (scanner.pass b).unquoted b := by
  have mode : (scanner.pass b).mode = scanner.mode := rfl
  rcases holds.unquoted with start | start | start
  · simp [step, mode, start, opened, notMark, notBlank start]
  · simp [step, mode, start, opened, notMark]
  · simp [step, mode, start]

theorem holds_start (byte : ℕ) : (start byte).Holds [] [] [] :=
  ⟨.inl rfl, by simp [start], rfl, rfl, rfl⟩

theorem holds_add (holds : scanner.Holds rows fields field) (ordinary : Ordinary b) :
    (scanner.step b).Holds rows fields (field ++ [b]) := by
  have added : scanner.step b = (scanner.pass b).add b := by
    rw [step_eq holds ordinary.notMark fun _ => ordinary.notEnd]
    simp [unquoted, ordinary.notTab, ordinary.notEnd]
  rw [added]
  exact ⟨.inr (.inr rfl), by simp [add], holds.rows, holds.fields,
    by simp [add, pass, holds.field]⟩

theorem holds_tab (holds : scanner.Holds rows fields field) :
    (scanner.step tab).Holds rows (fields ++ [field]) [] := by
  have ended : scanner.step tab = (scanner.pass tab).endField := by
    rw [step_eq holds (by decide) fun _ => by decide]
    rfl
  rw [ended]
  exact ⟨.inr (.inl rfl), by simp [endField], holds.rows,
    by simp [endField, pass, holds.fields, holds.field], rfl⟩

theorem rows_end_record (holds : scanner.Holds rows fields field) :
    scanner.endRecord.records.toList.map Record.fields = rows ++ [fields ++ [field]] := by
  simp [endRecord, holds.rows, holds.fields, holds.field]

theorem holds_line_feed (holds : scanner.Holds rows fields field)
    (visible : ¬(fields = [] ∧ field = [])) :
    (scanner.step lineFeed).Holds (rows ++ [fields ++ [field]]) [] [] := by
  have started : scanner.mode ≠ .recordStart := mt holds.blank.mp visible
  have ended : scanner.step lineFeed = (scanner.pass lineFeed).endRecord := by
    rw [step_eq holds (by decide) fun start => absurd start started]
    rfl
  have passed : (scanner.pass lineFeed).Holds rows fields field :=
    ⟨holds.unquoted, holds.blank, holds.rows, holds.fields, holds.field⟩
  rw [ended]
  exact ⟨.inl rfl, by simp [endRecord], rows_end_record passed, rfl, rfl⟩

theorem rows_finish (holds : scanner.Holds rows fields field) :
    scanner.finish.toList.map Record.fields =
      if fields = [] ∧ field = [] then rows else rows ++ [fields ++ [field]] := by
  rw [finish]
  by_cases blank : fields = [] ∧ field = []
  · rw [if_pos (holds.blank.mpr blank), if_pos blank, holds.rows]
  · rw [if_neg (mt holds.blank.mp blank), if_neg blank, rows_end_record holds]

theorem holds_field {bytes : List UInt8} (holds : scanner.Holds rows fields field)
    (ordinary : ∀ b ∈ bytes, Ordinary b) :
    (bytes.foldl step scanner).Holds rows fields (field ++ bytes) := by
  induction bytes generalizing scanner field with
  | nil => simpa using holds
  | cons b bytes ih =>
      obtain ⟨first, rest⟩ := List.forall_mem_cons.mp ordinary
      simpa using ih (holds_add holds first) rest

theorem holds_joined {row : List (List UInt8)} (holds : scanner.Holds rows fields [])
    (nonempty : row ≠ []) (ordinary : ∀ field ∈ row, ∀ b ∈ field, Ordinary b) :
    ((joined row).foldl step scanner).Holds rows (fields ++ row.dropLast)
      (row.getLast nonempty) := by
  induction row generalizing scanner fields with
  | nil => exact absurd rfl nonempty
  | cons first rest ih =>
      obtain ⟨own, others⟩ := List.forall_mem_cons.mp ordinary
      have collected := holds_field holds own
      cases rest with
      | nil => simpa [joined] using collected
      | cons second rest =>
          have next := ih (holds_tab collected) (List.cons_ne_nil _ _) others
          simpa [joined] using next

theorem not_blank {row : List (List UInt8)} (proper : Row row) :
    ¬([] ++ row.dropLast = [] ∧ row.getLast proper.nonempty = []) := by
  rintro ⟨front, last⟩
  have whole := List.dropLast_concat_getLast proper.nonempty
  rw [List.nil_append] at front
  rw [front, last] at whole
  exact proper.visible whole.symm

theorem holds_line {row : List (List UInt8)} (holds : scanner.Holds rows [] []) (proper : Row row) :
    ((written row).foldl step scanner).Holds (rows ++ [row]) [] [] := by
  have collected := holds_joined holds proper.nonempty proper.ordinary
  have ended := holds_line_feed collected (not_blank proper)
  rw [List.nil_append, List.dropLast_concat_getLast proper.nonempty] at ended
  simpa [written] using ended

theorem holds_lines {added : List (List (List UInt8))} (holds : scanner.Holds rows [] [])
    (proper : ∀ row ∈ added, Row row) :
    ((added.flatMap written).foldl step scanner).Holds (rows ++ added) [] [] := by
  induction added generalizing scanner rows with
  | nil => simpa using holds
  | cons row added ih =>
      obtain ⟨first, rest⟩ := List.forall_mem_cons.mp proper
      simpa using ih (holds_line holds first) rest

end Step
end Scanner

theorem records_eq {bytes : List UInt8} (unmarked : bytes.head? ≠ some 0xEF) :
    records bytes = (bytes.foldl Scanner.step (Scanner.start 0)).finish := by
  unfold records
  split
  · simp at unmarked
  · rfl

theorem records_of_lines {rows : List (List (List UInt8))} (proper : ∀ row ∈ rows, Row row)
    (unmarked : (rows.flatMap written).head? ≠ some 0xEF) :
    (records (rows.flatMap written)).toList.map Record.fields = rows := by
  rw [records_eq unmarked]
  simpa using Scanner.rows_finish (Scanner.holds_lines (Scanner.holds_start 0) proper)

theorem records_of_unended {rows : List (List (List UInt8))} {row : List (List UInt8)}
    (proper : ∀ row ∈ rows, Row row) (last : Row row)
    (unmarked : (rows.flatMap written ++ joined row).head? ≠ some 0xEF) :
    (records (rows.flatMap written ++ joined row)).toList.map Record.fields = rows ++ [row] := by
  have lines := Scanner.holds_lines (Scanner.holds_start 0) proper
  have begun := Scanner.holds_joined lines last.nonempty last.ordinary
  have visible := Scanner.not_blank last
  have finished := Scanner.rows_finish begun
  rw [if_neg visible, List.nil_append, List.nil_append,
    List.dropLast_concat_getLast last.nonempty] at finished
  rw [records_eq unmarked, List.foldl_append]
  exact finished

end LatentFactor.Tabular
