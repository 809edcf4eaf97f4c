/-
**Lines of a CSV file, written and split.**

A field is written bare or quoted, with blanks around it, and the fields of a line are joined by
commas.

* `CsvField` — a field with the way it is written; `CsvField.text` is what stands in the line.
* `splitCells_plain`, `splitCells_doubled` — the scanner outside and inside quotes.
* `trim_blanks` — only the blanks around a field are trimmed.
* **`splitCsvLine_csvLine`** — `splitCsvLine` gives back the fields.
-/

import EtherAdapter.Model.Csv

namespace EtherAdapter

/-! ### Fields and lines -/

/-- A space or a tab. -/
def isBlankByte (c : UInt8) : Bool := c == 32 || c == 9

/-- A field of a line: its content, and how it is written. -/
structure CsvField where
  content : Bytes
  quoted : Bool
  before : Bytes
  behind : Bytes
  newline : 10 ∉ content
  start : ∀ c ∈ content.head?, c ≠ 32 ∧ c ≠ 9 ∧ c ≠ 13
  finish : ∀ c ∈ content.getLast?, c ≠ 32 ∧ c ≠ 9 ∧ c ≠ 13
  bare : quoted = false → 44 ∉ content ∧ 34 ∉ content
  before_blank : before.all isBlankByte
  behind_blank : behind.all isBlankByte

/-- A content with its quotes doubled. -/
def doubled (content : Bytes) : Bytes :=
  content.flatMap fun c => if c = 34 then [34, 34] else [c]

namespace CsvField

/-- The field without its blanks. -/
def body (field : CsvField) : Bytes :=
  if field.quoted then 34 :: doubled field.content ++ [34] else field.content

def text (field : CsvField) : Bytes := field.before ++ field.body ++ field.behind

end CsvField

/-- A line without its newline, with a CR at its end or not. -/
def csvLine (fields : List CsvField) (cr : Bool) : Bytes :=
  [44].intercalate (fields.map CsvField.text) ++ if cr then [13] else []

/-! ### The scanner -/

/-- What neither ends a cell nor opens quotes is read as it stands. -/
theorem splitCells_plain {part : Bytes} (comma : 44 ∉ part) (quote : 34 ∉ part) (cur rest : Bytes) :
    splitCells false cur (part ++ rest) = splitCells false (cur ++ part) rest := by
  induction part generalizing cur with
  | nil => rw [List.nil_append, List.append_nil]
  | cons c part ih =>
    rw [List.mem_cons, not_or] at comma quote
    rw [List.cons_append, splitCells, ih comma.2 quote.2, List.append_assoc, List.singleton_append]
    · exact fun same => quote.1 same.symm
    · exact fun same => comma.1 same.symm

/-- Quoted content is read up to its closing quote. -/
theorem splitCells_doubled {rest : Bytes} (stop : rest.head? ≠ some 34) (content cur : Bytes) :
    splitCells true cur (doubled content ++ 34 :: rest) = splitCells false (cur ++ content) rest := by
  induction content generalizing cur with
  | nil =>
    show splitCells true cur (34 :: rest) = _
    rw [splitCells, List.append_nil]
    rintro line rfl
    exact stop rfl
  | cons c content ih =>
    rw [doubled, List.flatMap_cons, List.append_assoc]
    by_cases quote : c = 34
    · subst quote
      show splitCells true (cur ++ [34]) (doubled content ++ 34 :: rest) = _
      rw [ih, List.append_assoc, List.singleton_append]
    · rw [if_neg quote, List.singleton_append, splitCells]
      · show splitCells true (cur ++ [c]) (doubled content ++ 34 :: rest) = _
        rw [ih, List.append_assoc, List.singleton_append]
      · exact fun _ same => absurd same quote
      · exact quote

/-! ### One field -/

theorem not_mem_of_blank {part : Bytes} (blank : part.all isBlankByte) {c : UInt8}
    (other : isBlankByte c = false) : c ∉ part := by
  intro member
  rw [List.all_eq_true.mp blank c member] at other
  cases other

/-- A field goes to the current cell, blanks and all, and the scanner is outside quotes again. -/
theorem splitCells_text (field : CsvField) {rest : Bytes} (stop : rest.head? ≠ some 34)
    (cur : Bytes) :
    splitCells false cur (field.text ++ rest) =
      splitCells false (cur ++ (field.before ++ field.content ++ field.behind)) rest := by
  have before := @splitCells_plain field.before
    (not_mem_of_blank field.before_blank rfl) (not_mem_of_blank field.before_blank rfl)
  have behind := @splitCells_plain field.behind
    (not_mem_of_blank field.behind_blank rfl) (not_mem_of_blank field.behind_blank rfl)
  rw [CsvField.text, List.append_assoc, List.append_assoc, before, CsvField.body]
  cases written : field.quoted with
  | true =>
    have close : (field.behind ++ rest).head? ≠ some 34 := by
      cases blanks : field.behind with
      | nil => exact stop
      | cons c more =>
        intro quote
        have first : c = 34 := Option.some.inj quote
        have blank := field.behind_blank
        rw [blanks, first] at blank
        exact absurd blank Bool.false_ne_true
    rw [if_pos rfl, List.append_assoc, List.cons_append, splitCells, List.singleton_append,
      splitCells_doubled close, behind]
    simp only [List.append_assoc]
  | false =>
    obtain ⟨comma, quote⟩ := field.bare written
    rw [if_neg Bool.false_ne_true, splitCells_plain comma quote, behind]
    simp only [List.append_assoc]

/-! ### Trimming -/

theorem dropWhile_blanks {p : UInt8 → Bool} {blanks rest : Bytes} (all : ∀ c ∈ blanks, p c = true)
    (stop : ∀ c, rest.head? = some c → p c = false) : (blanks ++ rest).dropWhile p = rest := by
  rw [List.dropWhile_append_of_pos all]
  cases rest with
  | nil => rfl
  | cons c rest => rw [List.dropWhile_cons_of_neg (by rw [stop c rfl]; exact Bool.false_ne_true)]

/-- **Only the blanks around a text are trimmed.** -/
theorem trim_blanks {before content behind : Bytes} (first : ∀ c ∈ before, isTrimByte c = true)
    (last : ∀ c ∈ behind, isTrimByte c = true)
    (start : ∀ c, content.head? = some c → isTrimByte c = false)
    (finish : ∀ c, content.getLast? = some c → isTrimByte c = false) :
    trim (before ++ content ++ behind) = content := by
  have front : (before ++ content ++ behind).dropWhile isTrimByte =
      if content = [] then [] else content ++ behind := by
    rw [List.append_assoc]
    split
    · rename_i empty
      rw [empty, List.nil_append, ← List.append_nil (before ++ behind)]
      refine dropWhile_blanks (fun c member => ?_) nofun
      rcases List.mem_append.mp member with here | later
      · exact first c here
      · exact last c later
    · rename_i some
      refine dropWhile_blanks first fun c head => start c ?_
      rwa [List.head?_append_of_ne_nil _ some] at head
  rw [trim, front]
  split
  · rename_i empty
    rw [empty]
    rfl
  · rw [List.reverse_append, dropWhile_blanks, List.reverse_reverse]
    · exact fun c member => last c (List.mem_reverse.mp member)
    · intro c head
      rw [List.head?_reverse] at head
      exact finish c head

theorem isTrimByte_of_blank {part : Bytes} (blank : part.all isBlankByte) :
    ∀ c ∈ part, isTrimByte c = true := by
  intro c member
  have here := List.all_eq_true.mp blank c member
  rw [isBlankByte, Bool.or_eq_true] at here
  rw [isTrimByte, Bool.or_eq_true, Bool.or_eq_true, Bool.or_eq_true]
  exact Or.inl (Or.inl here)

theorem isTrimByte_eq_false {c : UInt8} (newline : c ≠ 10) (other : c ≠ 32 ∧ c ≠ 9 ∧ c ≠ 13) :
    isTrimByte c = false := by
  simp only [isTrimByte, Bool.or_eq_false_iff, beq_eq_false_iff_ne]
  exact ⟨⟨⟨other.1, other.2.1⟩, other.2.2⟩, newline⟩

/-- A field's cell is trimmed to its content, also with the CR of the line behind it. -/
theorem trim_cell (field : CsvField) {ending : Bytes} (cr : ∀ c ∈ ending, isTrimByte c = true) :
    trim (field.before ++ field.content ++ field.behind ++ ending) = field.content := by
  rw [List.append_assoc _ field.behind]
  refine trim_blanks (isTrimByte_of_blank field.before_blank) ?_ ?_ ?_
  · intro c member
    rcases List.mem_append.mp member with blank | last
    · exact isTrimByte_of_blank field.behind_blank c blank
    · exact cr c last
  · intro c head
    refine isTrimByte_eq_false ?_ (field.start c head)
    rintro rfl
    exact field.newline (List.mem_of_mem_head? head)
  · intro c last
    refine isTrimByte_eq_false ?_ (field.finish c last)
    rintro rfl
    exact field.newline (List.mem_of_getLast? last)

/-! ### Lines -/

/-- A line, field by field: the cells are trimmed to the contents. -/
theorem splitCsvLine_fields (first : CsvField) (later : List CsvField) {ending : Bytes}
    (comma : 44 ∉ ending) (quote : 34 ∉ ending) (cr : ∀ c ∈ ending, isTrimByte c = true) :
    splitCsvLine ([44].intercalate ((first :: later).map CsvField.text) ++ ending) =
      (first :: later).map CsvField.content := by
  induction later generalizing first with
  | nil =>
    have stop : ending.head? ≠ some 34 := fun head => quote (List.mem_of_mem_head? head)
    have cell : splitCells false [] (first.text ++ ending) =
        [first.before ++ first.content ++ first.behind ++ ending] := by
      rw [splitCells_text first stop, List.nil_append, ← List.append_nil ending,
        splitCells_plain comma quote, List.append_nil, splitCells]
    rw [List.map_singleton, List.intercalate_singleton, splitCsvLine, cell, List.map_singleton,
      trim_cell first cr, List.map_singleton]
  | cons next later ih =>
    have joined : [44].intercalate ((first :: next :: later).map CsvField.text) ++ ending =
        first.text ++ 44 :: ([44].intercalate ((next :: later).map CsvField.text) ++ ending) := by
      rw [List.map_cons, List.map_cons, List.intercalate_cons_cons, List.append_assoc,
        List.append_assoc, List.singleton_append]
    have cells : splitCells false [] (first.text ++
        44 :: ([44].intercalate ((next :: later).map CsvField.text) ++ ending)) =
        (first.before ++ first.content ++ first.behind ++ []) ::
          splitCells false [] ([44].intercalate ((next :: later).map CsvField.text) ++ ending) := by
      rw [splitCells_text first (by rw [List.head?_cons]; decide), List.nil_append, splitCells,
        List.append_nil]
    have rest := ih next
    rw [splitCsvLine] at rest
    rw [joined, splitCsvLine, cells, List.map_cons, trim_cell first (by simp), rest]
    rfl

/-- **`splitCsvLine` inverts the writing of a line.** -/
theorem splitCsvLine_csvLine (fields : List CsvField) (nonempty : fields ≠ []) (cr : Bool) :
    splitCsvLine (csvLine fields cr) = fields.map CsvField.content := by
  obtain ⟨first, later, rfl⟩ := List.exists_cons_of_ne_nil nonempty
  rw [csvLine]
  cases cr with
  | true =>
    exact splitCsvLine_fields first later (by decide) (by decide)
      (List.forall_mem_singleton.mpr rfl)
  | false =>
    exact splitCsvLine_fields first later (by decide) (by decide) (List.forall_mem_nil _)

/-- A field with a comma and a quote, quoted; an empty one; one with a blank inside, bare. -/
def sampleFields : List CsvField :=
  [{ content := [97, 34, 44], quoted := true, before := [32], behind := [9], newline := by decide
     start := by simp, finish := by simp, bare := by decide, before_blank := by decide
     behind_blank := by decide },
    { content := [], quoted := false, before := [], behind := [], newline := by decide
      start := by simp, finish := by simp, bare := by decide, before_blank := by decide
      behind_blank := by decide },
    { content := [120, 32, 121], quoted := false, before := [32, 32], behind := []
      newline := by decide, start := by simp, finish := by simp, bare := by decide
      before_blank := by decide, behind_blank := by decide }]

theorem splitCsvLine_csvLine_sample :
    csvLine sampleFields true = bytesOf " \"a\"\",\"\t,,  x y\r" ∧
      splitCsvLine (bytesOf " \"a\"\",\"\t,,  x y\r") =
        [bytesOf "a\",", [], bytesOf "x y"] := by
  have line : csvLine sampleFields true = bytesOf " \"a\"\",\"\t,,  x y\r" := by decide +kernel
  refine ⟨line, ?_⟩
  rw [← line, splitCsvLine_csvLine sampleFields (List.cons_ne_nil _ _) true]
  decide +kernel

end EtherAdapter
