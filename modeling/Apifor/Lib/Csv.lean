import Apifor.Lib.Text
import Mathlib.Data.List.Forall2

/-!
# Comma-separated values

The format of RFC 4180: records of cells, each bare or in quotes. The reader is a machine that goes
through the text once; it takes a line break with or without its CR. What `quote` writes spells the
cell whatever the cell holds.
-/

namespace Csv

/-- A cell in quotes: the quotes inside it are doubled. -/
@[grind =] def quote (s : String) : String :=
  "\"" ++ String.ofList (s.toList.flatMap fun c => if c = '"' then ['"', '"'] else [c]) ++ "\""

/-! ## The reader -/

inductive Mode
  | start
  | bare
  | quoted
  | closing
  | cr
  deriving DecidableEq

/-- Where the reader is in a cell, with the cell, the record and the records read so far. -/
structure Reader where
  mode : Mode := .start
  cell : List Char := []
  record : List String := []
  records : List (List String) := []

namespace Reader

def endCell (s : Reader) : Reader :=
  { mode := .start, cell := [], record := s.record ++ [String.ofList s.cell], records := s.records }

def endRecord (s : Reader) : Reader :=
  { mode := .start, cell := [], record := [], records := s.records ++ [s.record ++ [String.ofList s.cell]] }

/-- A character that does not end a cell. -/
@[grind =] def content (s : Reader) (c : Char) : Option Reader :=
  match s.mode with
  | .start => some (if c = '"' then { s with mode := .quoted } else { s with mode := .bare, cell := s.cell ++ [c] })
  | .bare => if c = '"' then none else some { s with cell := s.cell ++ [c] }
  | _ => if c = '"' then some { s with mode := .quoted, cell := s.cell ++ [c] } else none

@[grind =] def step (s : Reader) (c : Char) : Option Reader :=
  match s.mode with
  | .quoted => some (if c = '"' then { s with mode := .closing } else { s with cell := s.cell ++ [c] })
  | .cr => if c = '\n' then some s.endRecord else none
  | _ =>
      if c = ',' then some s.endCell
      else if c = '\n' then some s.endRecord
      else if c = '\r' then some { s with mode := .cr }
      else s.content c

/-- The last record may end without a line break. -/
@[grind =] def finish (s : Reader) : Option (List (List String)) :=
  match s.mode with
  | .quoted => none
  | .cr => none
  | .start => if s.record = [] then some s.records else some s.endRecord.records
  | _ => some s.endRecord.records

@[grind =] def read (s : Reader) : List Char → Option Reader
  | [] => some s
  | c :: cs => (s.step c).bind fun s' => read s' cs

theorem read_append (s : Reader) (cs cs' : List Char) :
    s.read (cs ++ cs') = (s.read cs).bind fun s' => s'.read cs' := by
  induction cs generalizing s with
  | nil => rfl
  | cons c cs ih =>
      simp only [List.cons_append, read]
      cases s.step c with
      | none => rfl
      | some s' => exact ih s'

end Reader

def parse (text : String) : Option (List (List String)) := (Reader.read {} text.toList).bind Reader.finish

/-! ## Cells -/

variable {record cells texts : List String} {records : List (List String)} {text cell : String}

/-- The text is one cell for the reader, and leaves it where the cell may end. -/
def Spells (text cell : String) : Prop :=
  ∀ record records, ∃ m, (m ≠ .quoted ∧ m ≠ .cr) ∧
    Reader.read ⟨.start, [], record, records⟩ text.toList = some ⟨m, cell.toList, record, records⟩

theorem read_doubled (pre cs : List Char) (rest : List Char) :
    Reader.read ⟨.quoted, pre, record, records⟩
        ((cs.flatMap fun c => if c = '"' then ['"', '"'] else [c]) ++ rest) =
      Reader.read ⟨.quoted, pre ++ cs, record, records⟩ rest := by
  induction cs generalizing pre with
  | nil => simp
  | cons c cs ih =>
      by_cases hc : c = '"'
      · subst hc
        simp [Reader.read, Reader.step, Reader.content, ih]
      · simp [Reader.read, Reader.step, hc, ih]

theorem spells_quote (s : String) : Spells (quote s) s := by
  intro record records
  refine ⟨.closing, ⟨by decide, by decide⟩, ?_⟩
  have hbody : _ = Reader.read ⟨.quoted, [] ++ s.toList, record, records⟩ ['"'] := read_doubled [] s.toList ['"']
  simp only [quote, String.toList_append, String.toList_ofList]
  simpa [Reader.read, Reader.step, Reader.content] using hbody

/-- What may stand in a bare cell. -/
def Plain (s : String) : Prop := ∀ c ∈ s.toList, c ≠ '"' ∧ c ≠ ',' ∧ c ≠ '\n' ∧ c ≠ '\r'

instance (s : String) : Decidable (Plain s) := List.decidableBAll _ s.toList

theorem read_plain (pre cs : List Char) (h : ∀ c ∈ cs, c ≠ '"' ∧ c ≠ ',' ∧ c ≠ '\n' ∧ c ≠ '\r') :
    Reader.read ⟨.bare, pre, record, records⟩ cs = some ⟨.bare, pre ++ cs, record, records⟩ := by
  induction cs generalizing pre with
  | nil => simp [Reader.read]
  | cons c cs ih =>
      obtain ⟨hq, hcomma, hlf, hcr⟩ := h c List.mem_cons_self
      have hrest := ih (pre ++ [c]) fun d hd => h d (List.mem_cons_of_mem c hd)
      simpa [Reader.read, Reader.step, Reader.content, hq, hcomma, hlf, hcr] using hrest

theorem spells_plain {s : String} (h : Plain s) : Spells s s := by
  intro record records
  unfold Plain at h
  cases hs : s.toList with
  | nil => exact ⟨.start, ⟨by decide, by decide⟩, rfl⟩
  | cons c cs =>
      rw [hs] at h
      obtain ⟨hq, hcomma, hlf, hcr⟩ := h c List.mem_cons_self
      have hrest : Reader.read ⟨.bare, [c], record, records⟩ cs = _ :=
        read_plain [c] cs fun d hd => h d (List.mem_cons_of_mem c hd)
      refine ⟨.bare, ⟨by decide, by decide⟩, ?_⟩
      simpa [Reader.read, Reader.step, Reader.content, hq, hcomma, hlf, hcr] using hrest

/-! ## Records -/

theorem Spells.comma (h : Spells text cell) (rest : List Char) :
    Reader.read ⟨.start, [], record, records⟩ (text.toList ++ ',' :: rest) =
      Reader.read ⟨.start, [], record ++ [cell], records⟩ rest := by
  obtain ⟨m, ⟨hq, hcr⟩, hread⟩ := h record records
  rw [Reader.read_append, hread]
  cases m <;> simp_all [Reader.read, Reader.step, Reader.endCell]

theorem Spells.newline (h : Spells text cell) (rest : List Char) :
    Reader.read ⟨.start, [], record, records⟩ (text.toList ++ '\n' :: rest) =
      Reader.read ⟨.start, [], [], records ++ [record ++ [cell]]⟩ rest := by
  obtain ⟨m, ⟨hq, hcr⟩, hread⟩ := h record records
  rw [Reader.read_append, hread]
  cases m <;> simp_all [Reader.read, Reader.step, Reader.endRecord]

/-- A line of cells. -/
def line (texts : List String) : String := Text.join "," texts ++ "\n"

theorem read_line (h : List.Forall₂ Spells texts cells) (hne : texts ≠ []) (rest : List Char) :
    Reader.read ⟨.start, [], record, records⟩ ((line texts).toList ++ rest) =
      Reader.read ⟨.start, [], [], records ++ [record ++ cells]⟩ rest := by
  induction h generalizing record with
  | nil => exact absurd rfl hne
  | @cons text cell texts cells hcell hcells ih =>
      cases texts with
      | nil =>
          cases hcells
          simpa [line, Text.join] using hcell.newline rest
      | cons text' texts =>
          have hrest := @ih (record ++ [cell]) (by simp)
          simp only [line, Text.join, String.toList_append, List.append_assoc] at hrest ⊢
          exact (hcell.comma _).trans (by simpa using hrest)

theorem read_lines {lines records' : List (List String)} (h : List.Forall₂ (List.Forall₂ Spells) lines records')
    (hne : ∀ l ∈ lines, l ≠ []) :
    Reader.read ⟨.start, [], [], records⟩ (lines.flatMap fun l => (line l).toList) =
      some ⟨.start, [], [], records ++ records'⟩ := by
  induction h generalizing records with
  | nil => simp [Reader.read]
  | @cons l cells lines records' hl _ ih =>
      have hrest := @ih (records ++ [cells]) fun l' hl' => hne l' (List.mem_cons_of_mem l hl')
      rw [List.flatMap_cons, read_line hl (hne l List.mem_cons_self)]
      simpa using hrest

/-- A file of lines reads as the records that the lines spell. -/
theorem parse_lines {lines : List (List String)} (h : List.Forall₂ (List.Forall₂ Spells) lines records)
    (hne : ∀ l ∈ lines, l ≠ []) :
    parse (String.ofList (lines.flatMap fun l => (line l).toList)) = some records := by
  rw [parse, String.toList_ofList, read_lines h hne]
  simp [Reader.finish]

end Csv
