/-
**Configuration files, written and read.**

A file is a sequence of lines: blank ones, comments, sections, settings with any spacing, quoted or
not, and lines that say nothing. What it says is the fold of `IniItem.apply`.

* `readLine_line` — every line is read as what it says.
* `load_iniFile` — and so is the file, also without a newline at its end.
* `AdapterConfig.Valid` — the numbers of a configuration are in range.
* **`config_round_trip`** — every file at all gives a valid configuration; and every valid
  configuration is read back from any file whose last word on each setting is that of the
  configuration.
-/

import Mathlib.Data.List.DropRight
import Mathlib.Data.List.TakeWhile
import EtherAdapter.Model.Settings
import EtherAdapter.Config.CsvLines
import EtherAdapter.Writer.Sql

namespace EtherAdapter

/-! ### Trimming -/

section

variable {dropped : UInt8 → Bool}

theorem trimBy_eq (s : Bytes) : trimBy dropped s = (s.dropWhile dropped).rdropWhile dropped := rfl

theorem rdropWhile_blanks {content behind : Bytes} (last : ∀ c ∈ behind, dropped c = true)
    (finish : ∀ c, content.getLast? = some c → dropped c = false) :
    (content ++ behind).rdropWhile dropped = content := by
  rw [List.rdropWhile, List.reverse_append, dropWhile_blanks, List.reverse_reverse]
  · exact fun c member => last c (List.mem_reverse.mp member)
  · intro c head
    rw [List.head?_reverse] at head
    exact finish c head

/-- Nothing before a byte that stays is dropped at the end. -/
theorem rdropWhile_stop (front rest : Bytes) {c : UInt8} (stays : dropped c = false) :
    (front ++ c :: rest).rdropWhile dropped = front ++ c :: rest.rdropWhile dropped := by
  have stops : ((rest.reverse ++ [c]) ++ front.reverse).dropWhile dropped =
      rest.reverse.dropWhile dropped ++ ([c] ++ front.reverse) := by
    rw [List.append_assoc]
    by_cases all : ∀ d ∈ rest.reverse, dropped d = true
    · rw [List.dropWhile_append_of_pos all, List.singleton_append,
        List.dropWhile_cons_of_neg (by rw [stays]; exact Bool.false_ne_true),
        List.dropWhile_eq_nil_iff.mpr all, List.nil_append]
    · rw [List.dropWhile_append, if_neg]
      rw [List.isEmpty_iff, List.dropWhile_eq_nil_iff]
      exact all
  rw [List.rdropWhile, List.reverse_append, List.reverse_cons, stops, List.reverse_append,
    List.reverse_append, List.reverse_reverse, List.reverse_singleton, List.append_assoc,
    List.singleton_append]
  rfl

/-- A text that begins with a byte that stays, behind others that do not. -/
theorem trimBy_start {before : Bytes} (first : ∀ c ∈ before, dropped c = true) {c : UInt8}
    (stays : dropped c = false) (rest : Bytes) :
    trimBy dropped (before ++ c :: rest) = c :: rest.rdropWhile dropped := by
  rw [trimBy_eq, dropWhile_blanks first]
  · exact rdropWhile_stop [] rest stays
  · intro d head
    rw [← Option.some.inj head]
    exact stays

/-- **Only the ends of a text are trimmed.** -/
theorem trimBy_blanks {before content behind : Bytes} (first : ∀ c ∈ before, dropped c = true)
    (last : ∀ c ∈ behind, dropped c = true)
    (start : ∀ c, content.head? = some c → dropped c = false)
    (finish : ∀ c, content.getLast? = some c → dropped c = false) :
    trimBy dropped (before ++ content ++ behind) = content := by
  cases content with
  | nil =>
    rw [List.append_nil, trimBy_eq, List.dropWhile_eq_nil_iff.mpr]
    · rfl
    · exact List.forall_mem_append.mpr ⟨first, last⟩
  | cons c rest =>
    rw [List.append_assoc, List.cons_append, trimBy_eq, dropWhile_blanks first]
    · rw [← List.cons_append]
      exact rdropWhile_blanks last finish
    · intro d head
      exact start d head

/-- Trimming the end first changes nothing. -/
theorem trimBy_rdropWhile {before content behind : Bytes} (first : ∀ c ∈ before, dropped c = true)
    (last : ∀ c ∈ behind, dropped c = true)
    (start : ∀ c, content.head? = some c → dropped c = false)
    (finish : ∀ c, content.getLast? = some c → dropped c = false) :
    trimBy dropped ((before ++ content ++ behind).rdropWhile dropped) = content := by
  cases content with
  | nil =>
    have none : (before ++ [] ++ behind).rdropWhile dropped = [] := by
      rw [List.append_nil, List.rdropWhile_eq_nil_iff]
      exact List.forall_mem_append.mpr ⟨first, last⟩
    rw [none]
    rfl
  | cons c rest =>
    have short : (before ++ (c :: rest) ++ behind).rdropWhile dropped = before ++ (c :: rest) := by
      rw [List.append_assoc, List.cons_append, rdropWhile_stop before _ (start c rfl)]
      have stop := rdropWhile_stop [] (rest ++ behind) (start c rfl)
      rw [List.nil_append, List.nil_append, ← List.cons_append, rdropWhile_blanks last finish] at stop
      rw [← stop]
    rw [short, ← List.append_nil (before ++ (c :: rest))]
    exact trimBy_blanks first (List.forall_mem_nil _) start finish

end

/-! ### Lines -/

/-- White space only. -/
def IsSpace (s : Bytes) : Prop := ∀ c ∈ s, isSpaceByte c = true

/-- No white space at either end. -/
structure Trimmed (s : Bytes) : Prop where
  start : ∀ c, s.head? = some c → isSpaceByte c = false
  finish : ∀ c, s.getLast? = some c → isSpaceByte c = false

/-- A line, as its author means it. -/
inductive IniItem where
  | blank (space : Bytes)
  | comment (space : Bytes) (mark : UInt8) (text : Bytes)
  /-- A line that is neither a comment, nor a section, nor a setting. -/
  | noise (space text : Bytes)
  | header (space name behind : Bytes)
  /-- Around the key and the value there may be space, and around the value quotes. -/
  | setting (s₁ key s₂ s₃ : Bytes) (quote : Option UInt8) (value s₄ : Bytes)
deriving Repr

/-- A value as it stands in a line. -/
def quotedValue : Option UInt8 → Bytes → Bytes
  | none, value => value
  | some q, value => q :: value ++ [q]

namespace IniItem

def line : IniItem → Bytes
  | blank space => space
  | comment space mark text => space ++ mark :: text
  | noise space text => space ++ text
  | header space name behind => space ++ (91 :: (name ++ [93])) ++ behind
  | setting s₁ key s₂ s₃ quote value s₄ =>
    s₁ ++ (key ++ s₂ ++ 61 :: (s₃ ++ quotedValue quote value)) ++ s₄

/-- The parts are what they are said to be. -/
def Proper : IniItem → Prop
  | blank space => IsSpace space
  | comment space mark _ => IsSpace space ∧ (mark = 35 ∨ mark = 59)
  | noise space text =>
    IsSpace space ∧ 61 ∉ text ∧
      ∃ c rest, text = c :: rest ∧ isSpaceByte c = false ∧ c ≠ 35 ∧ c ≠ 59 ∧ c ≠ 91
  | header space _ behind => IsSpace space ∧ IsSpace behind
  | setting s₁ key s₂ s₃ quote value s₄ =>
    (IsSpace s₁ ∧ IsSpace s₂ ∧ IsSpace s₃ ∧ IsSpace s₄) ∧
      (Trimmed key ∧ 61 ∉ key ∧ ∃ c rest, key = c :: rest ∧ c ≠ 35 ∧ c ≠ 59 ∧ c ≠ 91) ∧
      match quote with
      | none => Trimmed value ∧ ConfigParser.unquoted value = value
      | some q => q = 34 ∨ q = 39

/-- What a line says. -/
def apply (cfg : ConfigParser) : IniItem → ConfigParser
  | blank _ | comment _ _ _ | noise _ _ => cfg
  | header _ name _ => { cfg with currentSection := name }
  | setting _ key _ _ _ value _ =>
    { cfg with sections := Function.update cfg.sections (cfg.currentSection, key) (some value) }

end IniItem

theorem Trimmed.trimBy {s before behind : Bytes} (trimmed : Trimmed s) (first : IsSpace before)
    (last : IsSpace behind) : EtherAdapter.trimBy isSpaceByte (before ++ s ++ behind) = s :=
  trimBy_blanks first last trimmed.start trimmed.finish

theorem getLast?_quoted (front : Bytes) (c : UInt8) : (front ++ [c]).getLast? = some c :=
  List.getLast?_concat

/-- A text between two marks loses them. -/
theorem drop_dropLast_marked (q r : UInt8) (value : Bytes) :
    ((q :: (value ++ [r])).drop 1).dropLast = value :=
  List.dropLast_concat

theorem unquoted_quoted {q : UInt8} (quote : q = 34 ∨ q = 39) (value : Bytes) :
    ConfigParser.unquoted (q :: value ++ [q]) = value := by
  have last : (q :: value ++ [q]).getLast? = some q := getLast?_quoted _ q
  have marks : 2 ≤ (q :: value ++ [q]).length ∧
      (((q :: value ++ [q]).head? = some 34 ∧ (q :: value ++ [q]).getLast? = some 34) ∨
        ((q :: value ++ [q]).head? = some 39 ∧ (q :: value ++ [q]).getLast? = some 39)) := by
    refine ⟨?_, ?_⟩
    · rw [List.length_append, List.length_cons, List.length_singleton]
      omega
    · rw [last]
      rcases quote with rfl | rfl
      · exact Or.inl ⟨rfl, rfl⟩
      · exact Or.inr ⟨rfl, rfl⟩
  rw [ConfigParser.unquoted, if_pos marks]
  exact drop_dropLast_marked q q value

theorem trimmed_quoted {q : UInt8} (quote : q = 34 ∨ q = 39) (value : Bytes) :
    Trimmed (q :: value ++ [q]) := by
  have visible : isSpaceByte q = false := by
    rcases quote with rfl | rfl
    · rfl
    · rfl
  refine ⟨?_, ?_⟩
  · intro c head
    rw [← Option.some.inj head]
    exact visible
  · intro c last
    rw [getLast?_quoted] at last
    rw [← Option.some.inj last]
    exact visible

section

variable (cfg : ConfigParser)

theorem readLine_blank {space : Bytes} (isSpace : IsSpace space) : cfg.readLine space = cfg := by
  have none : trimBy isSpaceByte space = [] := by
    rw [trimBy_eq, List.dropWhile_eq_nil_iff.mpr isSpace]
    rfl
  rw [ConfigParser.readLine, if_pos (Or.inl none)]

theorem readLine_comment {space text : Bytes} {mark : UInt8} (isSpace : IsSpace space)
    (sign : mark = 35 ∨ mark = 59) : cfg.readLine (space ++ mark :: text) = cfg := by
  have visible : isSpaceByte mark = false := by
    rcases sign with rfl | rfl
    · rfl
    · rfl
  rw [ConfigParser.readLine, trimBy_start isSpace visible, if_pos]
  rcases sign with rfl | rfl
  · exact Or.inr (Or.inl rfl)
  · exact Or.inr (Or.inr rfl)

/-- Neither a comment nor a section. -/
theorem readLine_other {line text : Bytes} {c : UInt8} (trimmed : trimBy isSpaceByte line = text)
    (starts : text.head? = some c) (hash : c ≠ 35) (semicolon : c ≠ 59) (bracket : c ≠ 91) :
    cfg.readLine line =
      if 61 ∈ text then
        { cfg with
          sections := Function.update cfg.sections
            (cfg.currentSection, trimBy isSpaceByte (text.takeWhile (· ≠ 61)))
            (some (ConfigParser.unquoted
              (trimBy isSpaceByte ((text.dropWhile (· ≠ 61)).drop 1)))) }
      else cfg := by
  rw [ConfigParser.readLine, trimmed, starts, if_neg, if_neg]
  · rintro ⟨head, -⟩
    exact bracket (Option.some.inj head)
  · rintro (empty | head | head)
    · rw [empty] at starts
      exact absurd starts (Option.some_ne_none c).symm
    · exact hash (Option.some.inj head)
    · exact semicolon (Option.some.inj head)

theorem readLine_noise {space text rest : Bytes} {c : UInt8} (isSpace : IsSpace space)
    (equals : 61 ∉ text) (starts : text = c :: rest) (visible : isSpaceByte c = false)
    (hash : c ≠ 35) (semicolon : c ≠ 59) (bracket : c ≠ 91) :
    cfg.readLine (space ++ text) = cfg := by
  subst starts
  rw [readLine_other cfg (trimBy_start isSpace visible rest) rfl hash semicolon bracket, if_neg]
  intro member
  refine equals ?_
  rcases List.mem_cons.mp member with here | later
  · exact List.mem_cons.mpr (Or.inl here)
  · exact List.mem_cons_of_mem _ ((List.rdropWhile_prefix _ _).subset later)

theorem readLine_header {space name behind : Bytes} (first : IsSpace space)
    (last : IsSpace behind) :
    cfg.readLine (space ++ (91 :: (name ++ [93])) ++ behind) =
      { cfg with currentSection := name } := by
  have ends : (91 :: (name ++ [93]) : Bytes).getLast? = some 93 := getLast?_quoted (91 :: name) 93
  have trimmed : trimBy isSpaceByte (space ++ (91 :: (name ++ [93])) ++ behind) =
      91 :: (name ++ [93]) := by
    refine trimBy_blanks first last ?_ ?_
    · intro c head
      rw [← Option.some.inj head]
      rfl
    · intro c final
      rw [ends] at final
      rw [← Option.some.inj final]
      rfl
  rw [ConfigParser.readLine, trimmed, if_neg, if_pos ⟨rfl, ends⟩]
  · rw [drop_dropLast_marked]
  · rintro (empty | head | head)
    · exact List.cons_ne_nil _ _ empty
    · exact absurd (Option.some.inj head) (by decide)
    · exact absurd (Option.some.inj head) (by decide)

/-- The part of a line in front of the first byte of a kind, and the part behind it. -/
theorem cut_at {front : Bytes} {mark : UInt8} (clear : mark ∉ front) (rest : Bytes) :
    (front ++ mark :: rest).takeWhile (· ≠ mark) = front ∧
      ((front ++ mark :: rest).dropWhile (· ≠ mark)).drop 1 = rest := by
  have all : ∀ c ∈ front, decide (c ≠ mark) = true :=
    fun c member => decide_eq_true fun same => clear (same ▸ member)
  have stop : ¬ decide (mark ≠ mark) = true := fun differ => (of_decide_eq_true differ) rfl
  have none : (mark :: rest).takeWhile (· ≠ mark) = [] :=
    List.takeWhile_cons_of_neg (p := fun c => decide (c ≠ mark)) stop
  have whole : (mark :: rest).dropWhile (· ≠ mark) = mark :: rest :=
    List.dropWhile_cons_of_neg (p := fun c => decide (c ≠ mark)) stop
  rw [List.takeWhile_append_of_pos all, List.dropWhile_append_of_pos all, none, whole,
    List.append_nil]
  exact ⟨rfl, rfl⟩

theorem not_mem_of_isSpace {s : Bytes} (isSpace : IsSpace s) {c : UInt8}
    (visible : isSpaceByte c = false) : c ∉ s := by
  intro member
  rw [isSpace c member] at visible
  exact Bool.noConfusion visible

theorem readLine_setting {s₁ s₂ s₃ s₄ key shown : Bytes} (before : IsSpace s₁) (left : IsSpace s₂)
    (right : IsSpace s₃) (behind : IsSpace s₄) (trimmedKey : Trimmed key) (equals : 61 ∉ key)
    (starts : ∃ c rest, key = c :: rest ∧ c ≠ 35 ∧ c ≠ 59 ∧ c ≠ 91) (trimmed : Trimmed shown) :
    cfg.readLine (s₁ ++ (key ++ s₂ ++ 61 :: (s₃ ++ shown)) ++ s₄) =
      { cfg with
        sections := Function.update cfg.sections (cfg.currentSection, key)
          (some (ConfigParser.unquoted shown)) } := by
  obtain ⟨c, rest, rfl, hash, semicolon, bracket⟩ := starts
  have clear : (61 : UInt8) ∉ c :: rest ++ s₂ := by
    rw [List.mem_append, not_or]
    exact ⟨equals, not_mem_of_isSpace left rfl⟩
  have line : trimBy isSpaceByte (s₁ ++ (c :: rest ++ s₂ ++ 61 :: (s₃ ++ shown)) ++ s₄) =
      c :: rest ++ s₂ ++ 61 :: (s₃ ++ shown ++ s₄).rdropWhile isSpaceByte := by
    have shape : s₁ ++ (c :: rest ++ s₂ ++ 61 :: (s₃ ++ shown)) ++ s₄ =
        s₁ ++ c :: (rest ++ s₂ ++ 61 :: (s₃ ++ shown ++ s₄)) := by
      simp only [List.append_assoc, List.cons_append]
    rw [shape, trimBy_start before (trimmedKey.start c rfl), rdropWhile_stop _ _ rfl]
    rfl
  obtain ⟨ahead, after⟩ := cut_at clear ((s₃ ++ shown ++ s₄).rdropWhile isSpaceByte)
  rw [readLine_other cfg line rfl hash semicolon bracket, if_pos]
  · have keyRead : trimBy isSpaceByte (c :: rest ++ s₂) = c :: rest :=
      trimmedKey.trimBy (List.forall_mem_nil _) left
    have valueRead := trimBy_rdropWhile right behind trimmed.start trimmed.finish
    rw [ahead, after, keyRead, valueRead]
  · exact List.mem_append_right (c :: rest ++ s₂) List.mem_cons_self

/-- **Every line is read as what it says.** -/
theorem readLine_line (item : IniItem) (proper : item.Proper) :
    cfg.readLine item.line = item.apply cfg := by
  cases item with
  | blank space => exact readLine_blank cfg proper
  | comment space mark text => exact readLine_comment cfg proper.1 proper.2
  | noise space text =>
    obtain ⟨isSpace, equals, c, rest, starts, visible, hash, semicolon, bracket⟩ := proper
    exact readLine_noise cfg isSpace equals starts visible hash semicolon bracket
  | header space name behind => exact readLine_header cfg proper.1 proper.2
  | setting s₁ key s₂ s₃ quote value s₄ =>
    obtain ⟨⟨before, left, right, behind⟩, ⟨trimmedKey, equals, starts⟩, shown⟩ := proper
    cases quote with
    | none =>
      have read := readLine_setting cfg before left right behind trimmedKey equals starts shown.1
      rw [shown.2] at read
      exact read
    | some q =>
      have read := readLine_setting cfg before left right behind trimmedKey equals starts
        (trimmed_quoted shown value)
      rw [unquoted_quoted shown] at read
      exact read

end

/-! ### Files -/

/-- A line that stays one line. -/
structure IniItem.WellFormed (item : IniItem) : Prop where
  newline : 10 ∉ item.line
  proper : item.Proper

/-- A file; one that ends in a newline has an empty line at its end. -/
def iniFile (items : List IniItem) : Bytes := [10].intercalate (items.map IniItem.line)

theorem getlines_append {delim : UInt8} {piece : Bytes} (clear : delim ∉ piece) (cur rest : Bytes) :
    getlines delim cur (piece ++ rest) = getlines delim (cur ++ piece) rest := by
  induction piece generalizing cur with
  | nil => rw [List.nil_append, List.append_nil]
  | cons c piece ih =>
    rw [List.mem_cons, not_or] at clear
    rw [List.cons_append, getlines, if_neg (Ne.symm clear.1), ih clear.2, List.append_assoc,
      List.singleton_append]

/-- The pieces are found again; an empty one at the end goes unseen. -/
theorem getlines_intercalate {delim : UInt8} (pieces : List Bytes)
    (clear : ∀ piece ∈ pieces, delim ∉ piece) :
    pieces = getlines delim [] ([delim].intercalate pieces) ∨
      pieces = getlines delim [] ([delim].intercalate pieces) ++ [[]] := by
  induction pieces with
  | nil => exact Or.inl rfl
  | cons piece later ih =>
    have here := clear piece List.mem_cons_self
    cases later with
    | nil =>
      have alone := getlines_append here [] []
      rw [List.append_nil, List.nil_append, getlines] at alone
      rw [List.intercalate_singleton, alone]
      by_cases empty : piece = []
      · rw [if_pos empty, empty]
        exact Or.inr rfl
      · rw [if_neg empty]
        exact Or.inl rfl
    | cons second others =>
      have first : getlines delim [] ([delim].intercalate (piece :: second :: others)) =
          piece :: getlines delim [] ([delim].intercalate (second :: others)) := by
        rw [List.intercalate_cons_cons, List.append_assoc, getlines_append here,
          List.singleton_append, getlines, if_pos rfl, List.nil_append]
      rw [first, List.cons_append]
      rcases ih fun other member => clear other (List.mem_cons_of_mem _ member) with same | same
      · exact Or.inl (congrArg (piece :: ·) same)
      · exact Or.inr (congrArg (piece :: ·) same)

/-- **A file is read as what its lines say.** -/
theorem load_iniFile {items : List IniItem} (well : ∀ item ∈ items, item.WellFormed) :
    ConfigParser.load (iniFile items) = items.foldl IniItem.apply {} := by
  have clear : ∀ line ∈ items.map IniItem.line, (10 : UInt8) ∉ line := by
    intro line member
    obtain ⟨item, there, rfl⟩ := List.mem_map.mp member
    exact (well item there).newline
  have lines : ∀ cfg : ConfigParser, (getlines 10 [] (iniFile items)).foldl ConfigParser.readLine cfg =
      (items.map IniItem.line).foldl ConfigParser.readLine cfg := by
    intro cfg
    rcases getlines_intercalate _ clear with same | same
    · rw [iniFile, ← same]
    · rw [same, List.foldl_append, List.foldl_cons, List.foldl_nil, ← iniFile]
      exact (readLine_blank _ (List.forall_mem_nil _)).symm
  rw [ConfigParser.load, lines, List.foldl_map]
  refine List.foldl_ext _ _ _ fun cfg item member => ?_
  exact readLine_line cfg item (well item member).proper

/-! ### Numbers -/

theorem isNumberByte_visible {c : UInt8} (byte : isNumberByte c = true) :
    c ≠ 0 ∧ isSpaceByte c = false := by
  have low : 43 ≤ c.toNat := by
    simp only [isNumberByte, isDigitByte, Bool.or_eq_true, Bool.and_eq_true, beq_iff_eq,
      decide_eq_true_eq, UInt8.le_iff_toNat_le, ← UInt8.toNat_inj] at byte
    simp at byte
    omega
  refine ⟨?_, ?_⟩
  · rintro rfl
    exact absurd low (by decide)
  · rw [isSpaceByte, Bool.or_eq_false_iff, Bool.and_eq_false_iff, decide_eq_false_iff_not,
      decide_eq_false_iff_not, UInt8.le_iff_toNat_le, UInt8.le_iff_toNat_le]
    refine ⟨?_, Or.inr (Nat.not_le.mpr (Nat.lt_of_lt_of_le (by decide) low))⟩
    rw [beq_eq_false_iff_ne]
    rintro rfl
    exact absurd low (by decide)

/-- `std::atoi` reads an integer back that fits an `int`. -/
theorem atoiBytes_eq {text : Bytes} (number : IsNumberText text) {v : Int}
    (read : readInteger text = some v) (low : -2 ^ 31 ≤ v) (high : v < 2 ^ 31) :
    atoiBytes text = v := by
  have whole : (text.takeWhile (· ≠ 0)).dropWhile isSpaceByte = text := by
    rw [List.takeWhile_eq_self_iff.mpr]
    · exact dropWhile_blanks (List.forall_mem_nil _) fun c head =>
        (isNumberByte_visible (number.bytes c (List.mem_of_head? head))).2
    · exact fun c member => decide_eq_true (isNumberByte_visible (number.bytes c member)).1
  have digits : text.drop (scanSign text).2 ≠ [] ∧
      (text.drop (scanSign text).2).all isDigitByte = true := by
    by_contra other
    rw [readInteger, if_neg other] at read
    exact Option.some_ne_none v read.symm
  have all : (text.drop (scanSign text).2).takeWhile isDigitByte = text.drop (scanSign text).2 :=
    List.takeWhile_eq_self_iff.mpr (List.all_eq_true.mp digits.2)
  have value : (if (scanSign text).1 then
      max (-2 ^ 63) (-(digitsValue 10 (text.drop (scanSign text).2) : Int))
      else min (2 ^ 63 - 1) (digitsValue 10 (text.drop (scanSign text).2) : Int)) = v := by
    rw [readInteger, if_pos digits] at read
    rw [← Option.some.inj read] at low high ⊢
    split_ifs at low high ⊢ with negative
    · omega
    · omega
  rw [atoiBytes]
  simp only [whole, all, value]
  rw [Int64.toInt32_ofInt, Int32.toInt_ofInt_of_le low high]

theorem atoiBytes_intText {v : Int} (low : -2 ^ 31 ≤ v) (high : v < 2 ^ 31) :
    atoiBytes (intText v) = v :=
  atoiBytes_eq (isNumberText_intText v) (readInteger_intText v) low high

/-- Whatever the text is. -/
theorem atoiBytes_lt (text : Bytes) : atoiBytes text < 2 ^ 31 := Int32.toInt_lt _

theorem le_atoiBytes (text : Bytes) : -2 ^ 31 ≤ atoiBytes text := Int32.le_toInt _

/-! ### Ports -/

/-- A list of ports, as a text. -/
def portText (ports : List UInt16) : Bytes :=
  [44].intercalate (ports.map fun port => decimal port.toNat)

theorem ofInt_toNat (port : UInt16) : UInt16.ofInt port.toNat = port := by
  have small : (port.toNat : Int) % 2 ^ 16 = port.toNat :=
    Int.emod_eq_of_lt (Int.natCast_nonneg _) (by exact_mod_cast port.toNat_lt)
  rw [UInt16.ofInt, small, Int.toNat_natCast, UInt16.ofNat_toNat]

theorem intText_natCast (n : ℕ) : intText n = decimal n := by
  rw [intText, if_neg (Int.not_lt.mpr (Int.natCast_nonneg n)), Int.natAbs_natCast]

theorem atoiBytes_port (port : UInt16) : atoiBytes (decimal port.toNat) = port.toNat := by
  have small := port.toNat_lt
  rw [← intText_natCast]
  exact atoiBytes_intText (by omega) (by omega)

theorem isPortBlank_digit {c : UInt8} (digit : isDigitByte c = true) : isPortBlank c = false := by
  rw [isPortBlank, Bool.or_eq_false_iff, beq_eq_false_iff_ne, beq_eq_false_iff_ne]
  refine ⟨?_, ?_⟩
  · rintro rfl
    exact absurd digit (by decide)
  · rintro rfl
    exact absurd digit (by decide)

theorem parsePort_decimal {port : UInt16} (some_port : port ≠ 0) :
    parsePort (decimal port.toNat) = some port := by
  have positive : port.toNat ≠ 0 := fun zero => some_port (UInt16.toNat_inj.mp zero)
  have small := port.toNat_lt
  have digits := allDigits_decimal port.toNat
  have visible : ∀ c ∈ decimal port.toNat, isPortBlank c = false :=
    fun c member => isPortBlank_digit (digits c member)
  have whole := trimBy_blanks (List.forall_mem_nil _) (List.forall_mem_nil _)
    (fun c head => visible c (List.mem_of_head? head))
    (fun c last => visible c (List.mem_of_getLast? last))
  rw [List.nil_append, List.append_nil] at whole
  have shown : ¬ (decimal port.toNat).all isPortBlank = true := by
    intro blank
    obtain ⟨c, rest, first⟩ := List.exists_cons_of_ne_nil (decimal_ne_nil port.toNat)
    have member : c ∈ decimal port.toNat := by
      rw [first]
      exact List.mem_cons_self
    have here := visible c member
    rw [List.all_eq_true.mp blank c member] at here
    exact Bool.noConfusion here
  rw [parsePort, if_neg shown, whole, atoiBytes_port, if_pos (by omega), ofInt_toNat]

/-- **A list of ports is read back.** -/
theorem parsePortList_portText {ports : List UInt16} (proper : 0 ∉ ports) :
    parsePortList (portText ports) = ports := by
  have clear : ∀ piece ∈ ports.map fun port => decimal port.toNat, (44 : UInt8) ∉ piece := by
    intro piece member comma
    obtain ⟨port, -, rfl⟩ := List.mem_map.mp member
    exact absurd (allDigits_decimal port.toNat 44 comma) (by decide)
  have pieces : getlines 44 [] (portText ports) = ports.map fun port => decimal port.toNat := by
    rcases getlines_intercalate _ clear with same | same
    · exact same.symm
    · have empty : [] ∈ ports.map fun port => decimal port.toNat := by
        rw [same]
        exact List.mem_append_right _ List.mem_cons_self
      obtain ⟨port, -, none⟩ := List.mem_map.mp empty
      exact absurd none (decimal_ne_nil _)
  rw [parsePortList, pieces, List.filterMap_map]
  conv_rhs => rw [← List.filterMap_some (l := ports)]
  refine List.filterMap_congr fun port member => ?_
  exact parsePort_decimal fun zero => proper (zero ▸ member)

theorem parsePortList_nonzero (text : Bytes) : 0 ∉ parsePortList text := by
  intro member
  obtain ⟨item, -, found⟩ := List.mem_filterMap.mp member
  rw [parsePort] at found
  split_ifs at found with blank range
  have zero := congrArg UInt16.toNat (Option.some.inj found)
  rw [UInt16.ofInt, Int.emod_eq_of_lt (by omega) (by omega), UInt16.toNat_ofNat'] at zero
  change _ % 65536 = 0 at zero
  omega

/-! ### Configurations -/

/-- An `int` that is large enough. -/
structure IsIntFrom (least v : Int) : Prop where
  low : least ≤ v
  high : v < 2 ^ 31

/-- The numbers of a configuration are in range. -/
structure AdapterConfig.Valid (cfg : AdapterConfig) : Prop where
  extraListenPorts : 0 ∉ cfg.server.extraListenPorts
  maxConnections : IsIntFrom (-2 ^ 31) cfg.server.maxConnections
  batchRows : IsIntFrom 1 cfg.etherdb.batchRows
  flushIntervalMs : IsIntFrom 1 cfg.etherdb.flushIntervalMs
  pollIntervalMs : IsIntFrom 50 cfg.modbus.pollIntervalMs
  connectTimeoutMs : IsIntFrom 100 cfg.modbus.connectTimeoutMs

section

variable {ini : ConfigParser} {sec key : String}

theorem getInt_lt {default_ : Int} (small : default_ < 2 ^ 31) :
    ini.getInt sec key default_ < 2 ^ 31 := by
  rw [ConfigParser.getInt]
  split
  · exact small
  · exact atoiBytes_lt _

theorem isIntFrom_getInt {default_ : Int} (proper : IsIntFrom (-2 ^ 31) default_) :
    IsIntFrom (-2 ^ 31) (ini.getInt sec key default_) := by
  refine ⟨?_, getInt_lt proper.high⟩
  rw [ConfigParser.getInt]
  split
  · exact proper.low
  · exact le_atoiBytes _

/-- Every number read is brought into range. -/
theorem isIntFrom_atLeast {least default_ : Int} (proper : IsIntFrom least default_) :
    IsIntFrom least (atLeast least (ini.getInt sec key default_)) := by
  rw [atLeast]
  split
  · exact ⟨le_refl _, lt_of_le_of_lt proper.low proper.high⟩
  · rename_i enough
    exact ⟨not_lt.mp enough, getInt_lt proper.high⟩

end

/-- Whatever the file says. -/
theorem valid_load (link : Option Bytes) (cfgFile : Bytes) (file : Option Bytes) :
    (AdapterConfig.load link cfgFile file).Valid := by
  have maxConnections : IsIntFrom (-2 ^ 31) 1024 := ⟨by decide, by decide⟩
  have batchRows : IsIntFrom 1 4000 := ⟨by decide, by decide⟩
  have flushIntervalMs : IsIntFrom 1 20 := ⟨by decide, by decide⟩
  have pollIntervalMs : IsIntFrom 50 3000 := ⟨by decide, by decide⟩
  have connectTimeoutMs : IsIntFrom 100 1500 := ⟨by decide, by decide⟩
  cases file with
  | none =>
    exact ⟨List.not_mem_nil, maxConnections, batchRows, flushIntervalMs, pollIntervalMs,
      connectTimeoutMs⟩
  | some content =>
    exact ⟨parsePortList_nonzero _, isIntFrom_getInt maxConnections, isIntFrom_atLeast batchRows,
      isIntFrom_atLeast flushIntervalMs, isIntFrom_atLeast pollIntervalMs,
      isIntFrom_atLeast connectTimeoutMs⟩

def boolText (b : Bool) : Bytes := if b then bytesOf "true" else bytesOf "false"

/-- Every setting by its section and key, with its text. -/
def AdapterConfig.settings (cfg : AdapterConfig) : List ((String × String) × Bytes) :=
  [(("server", "extraListenPorts"), portText cfg.server.extraListenPorts),
    (("server", "maxConnections"), intText cfg.server.maxConnections),
    (("sqlite", "path"), cfg.sqlite.path),
    (("etherdb", "host"), cfg.etherdb.host),
    (("etherdb", "port"), decimal cfg.etherdb.port.toNat),
    (("etherdb", "user"), cfg.etherdb.user),
    (("etherdb", "password"), cfg.etherdb.password),
    (("etherdb", "db"), cfg.etherdb.db),
    (("etherdb", "createDatabase"), boolText cfg.etherdb.createDatabase),
    (("etherdb", "createTables"), boolText cfg.etherdb.createTables),
    (("etherdb", "batchRows"), intText cfg.etherdb.batchRows),
    (("etherdb", "flushIntervalMs"), intText cfg.etherdb.flushIntervalMs),
    (("http", "port"), decimal cfg.http.port.toNat),
    (("modbus", "pollIntervalMs"), intText cfg.modbus.pollIntervalMs),
    (("modbus", "connectTimeoutMs"), intText cfg.modbus.connectTimeoutMs),
    (("log", "dir"), cfg.log.dir),
    (("log", "level"), cfg.log.level),
    (("zmq", "enabled"), boolText cfg.zmq.enabled),
    (("zmq", "pubEndpoint"), cfg.zmq.pubEndpoint)]

section

variable {ini : ConfigParser} {sec key : String}

theorem get_settled {text : Bytes}
    (settled : ini.sections (bytesOf sec, bytesOf key) = some text) (default_ : Bytes) :
    ini.get sec key default_ = text := by
  rw [ConfigParser.get, settled, Option.getD_some]

theorem getInt_settled {v : Int} {text : Bytes}
    (settled : ini.sections (bytesOf sec, bytesOf key) = some text) (given : text ≠ [])
    (read : atoiBytes text = v) (default_ : Int) : ini.getInt sec key default_ = v := by
  rw [ConfigParser.getInt]
  simp only [get_settled settled, if_neg given, read]

theorem getBool_settled {b : Bool}
    (settled : ini.sections (bytesOf sec, bytesOf key) = some (boolText b)) (default_ : Bool) :
    ini.getBool sec key default_ = b := by
  rw [ConfigParser.getBool]
  simp only [get_settled settled]
  cases b with
  | false => rfl
  | true => rfl

theorem atLeast_settled {least v : Int} (proper : IsIntFrom least v) (small : -2 ^ 31 ≤ least)
    (settled : ini.sections (bytesOf sec, bytesOf key) = some (intText v)) (default_ : Int) :
    atLeast least (ini.getInt sec key default_) = v := by
  have read := atoiBytes_intText (le_trans small proper.low) proper.high
  rw [getInt_settled settled (isNumberText_intText v).some_byte read, atLeast,
    if_neg (not_lt.mpr proper.low)]

theorem port_settled {port : UInt16}
    (settled : ini.sections (bytesOf sec, bytesOf key) = some (decimal port.toNat))
    (default_ : Int) : UInt16.ofInt (ini.getInt sec key default_) = port := by
  rw [getInt_settled settled (decimal_ne_nil _) (atoiBytes_port port), ofInt_toNat]

end

/-- A file whose last word on every setting is that of the configuration. -/
theorem load_settled {cfg : AdapterConfig} (valid : cfg.Valid) {content : Bytes}
    (settled : ∀ setting ∈ cfg.settings, (ConfigParser.load content).sections
      (bytesOf setting.1.1, bytesOf setting.1.2) = some setting.2)
    (link : Option Bytes) (cfgFile : Bytes) :
    AdapterConfig.load link cfgFile (some content) =
      { cfg with exeDir := getExeDir link, configFile := cfgFile } := by
  simp only [AdapterConfig.settings, List.forall_mem_cons] at settled
  obtain ⟨ports, connections, path, host, port, user, password, db, database, tables, rows, flush,
    http, poll, timeout, dir, level, enabled, endpoint, -⟩ := settled
  have maxConnections := getInt_settled connections (isNumberText_intText _).some_byte
    (atoiBytes_intText valid.maxConnections.low valid.maxConnections.high)
  rw [AdapterConfig.load]
  simp only [get_settled ports, parsePortList_portText valid.extraListenPorts, maxConnections,
    get_settled path, get_settled host, port_settled port, get_settled user,
    get_settled password, get_settled db, getBool_settled database, getBool_settled tables,
    atLeast_settled valid.batchRows (by decide) rows,
    atLeast_settled valid.flushIntervalMs (by decide) flush, port_settled http,
    atLeast_settled valid.pollIntervalMs (by decide) poll,
    atLeast_settled valid.connectTimeoutMs (by decide) timeout, get_settled dir,
    get_settled level, getBool_settled enabled, get_settled endpoint]

/-! ### Files written -/

/-- Where a setting is found. -/
def settingKey (setting : (String × String) × Bytes) : Bytes × Bytes :=
  (bytesOf setting.1.1, bytesOf setting.1.2)

/-- A setting, quoted, behind its section. -/
def writtenSetting (setting : (String × String) × Bytes) : List IniItem :=
  [.header [] (settingKey setting).1 [],
    .setting [] (settingKey setting).2 [] [] (some 34) setting.2 []]

/-- A configuration, written line by line. -/
def AdapterConfig.items (cfg : AdapterConfig) : List IniItem :=
  cfg.settings.flatMap writtenSetting

theorem foldl_writtenSetting (setting : (String × String) × Bytes) (ini : ConfigParser) :
    ((writtenSetting setting).foldl IniItem.apply ini).sections =
      Function.update ini.sections (settingKey setting) (some setting.2) := rfl

/-- A setting that is not written stays. -/
theorem sections_other {settings : List ((String × String) × Bytes)} {key : Bytes × Bytes}
    (other : key ∉ settings.map settingKey) (ini : ConfigParser) :
    ((settings.flatMap writtenSetting).foldl IniItem.apply ini).sections key = ini.sections key := by
  induction settings generalizing ini with
  | nil => rfl
  | cons setting later ih =>
    rw [List.map_cons, List.mem_cons, not_or] at other
    rw [List.flatMap_cons, List.foldl_append, ih other.2, foldl_writtenSetting,
      Function.update_of_ne other.1]

/-- A setting that is written once is held. -/
theorem sections_written {settings : List ((String × String) × Bytes)}
    (once : (settings.map settingKey).Nodup) (ini : ConfigParser) :
    ∀ setting ∈ settings, ((settings.flatMap writtenSetting).foldl IniItem.apply ini).sections
      (settingKey setting) = some setting.2 := by
  induction settings generalizing ini with
  | nil => exact List.forall_mem_nil _
  | cons first later ih =>
    rw [List.map_cons, List.nodup_cons] at once
    intro setting member
    rw [List.flatMap_cons, List.foldl_append]
    rcases List.mem_cons.mp member with rfl | there
    · rw [sections_other once.1, foldl_writtenSetting, Function.update_self]
    · exact ih once.2 _ setting there

/-- The section and the key of every setting. -/
def settingNames : List (String × String) :=
  [("server", "extraListenPorts"), ("server", "maxConnections"), ("sqlite", "path"),
    ("etherdb", "host"), ("etherdb", "port"), ("etherdb", "user"), ("etherdb", "password"),
    ("etherdb", "db"), ("etherdb", "createDatabase"), ("etherdb", "createTables"),
    ("etherdb", "batchRows"), ("etherdb", "flushIntervalMs"), ("http", "port"),
    ("modbus", "pollIntervalMs"), ("modbus", "connectTimeoutMs"), ("log", "dir"),
    ("log", "level"), ("zmq", "enabled"), ("zmq", "pubEndpoint")]

theorem settings_names (cfg : AdapterConfig) : cfg.settings.map Prod.fst = settingNames := rfl

theorem settings_nodup (cfg : AdapterConfig) : (cfg.settings.map settingKey).Nodup := by
  have keys : cfg.settings.map settingKey =
      settingNames.map fun name => (bytesOf name.1, bytesOf name.2) := rfl
  rw [keys]
  decide +kernel

/-- Sections and keys are words. -/
theorem settings_words {cfg : AdapterConfig} {setting : (String × String) × Bytes}
    (member : setting ∈ cfg.settings) : (settingKey setting).1.all isWordByte = true ∧
      (settingKey setting).2.all isWordByte = true ∧ (settingKey setting).2 ≠ [] := by
  have words : ∀ name ∈ settingNames, (bytesOf name.1).all isWordByte = true ∧
      (bytesOf name.2).all isWordByte = true ∧ bytesOf name.2 ≠ [] := by
    decide +kernel
  refine words setting.1 ?_
  rw [← settings_names cfg]
  exact List.mem_map_of_mem member

theorem isWordByte_plain {c : UInt8} (word : isWordByte c = true) :
    isSpaceByte c = false ∧ c ≠ 10 ∧ c ≠ 61 ∧ c ≠ 35 ∧ c ≠ 59 ∧ c ≠ 91 := by
  have range : ∀ n < 256, isWordByte (UInt8.ofNat n) = true →
      isSpaceByte (UInt8.ofNat n) = false ∧ UInt8.ofNat n ≠ 10 ∧ UInt8.ofNat n ≠ 61 ∧
        UInt8.ofNat n ≠ 35 ∧ UInt8.ofNat n ≠ 59 ∧ UInt8.ofNat n ≠ 91 := by
    decide +kernel
  have here := range c.toNat c.toNat_lt
  rw [UInt8.ofNat_toNat] at here
  exact here word

theorem wellFormed_written {cfg : AdapterConfig} {setting : (String × String) × Bytes}
    (member : setting ∈ cfg.settings) (oneLine : 10 ∉ setting.2) :
    ∀ item ∈ writtenSetting setting, item.WellFormed := by
  obtain ⟨sectionWord, keyWord, given⟩ := settings_words member
  have keyPlain := fun c there => isWordByte_plain (List.all_eq_true.mp keyWord c there)
  have header : (IniItem.header [] (settingKey setting).1 []).WellFormed := by
    refine ⟨?_, List.forall_mem_nil _, List.forall_mem_nil _⟩
    intro newline
    rw [IniItem.line, List.append_nil, List.nil_append, List.mem_cons, List.mem_append,
      List.mem_singleton] at newline
    rcases newline with here | there | here
    · exact absurd here (by decide)
    · exact (isWordByte_plain (List.all_eq_true.mp sectionWord 10 there)).2.1 rfl
    · exact absurd here (by decide)
  have line : (IniItem.setting [] (settingKey setting).2 [] [] (some 34) setting.2 []).WellFormed := by
    refine ⟨?_, ⟨List.forall_mem_nil _, List.forall_mem_nil _, List.forall_mem_nil _,
      List.forall_mem_nil _⟩, ⟨⟨?_, ?_⟩, ?_, ?_⟩, Or.inl rfl⟩
    · intro newline
      rw [IniItem.line, quotedValue, List.append_nil, List.nil_append, List.append_nil,
        List.nil_append, List.mem_append, List.mem_cons, List.cons_append, List.mem_cons,
        List.mem_append, List.mem_singleton] at newline
      rcases newline with there | here | here | there | here
      · exact (keyPlain 10 there).2.1 rfl
      · exact absurd here (by decide)
      · exact absurd here (by decide)
      · exact oneLine there
      · exact absurd here (by decide)
    · exact fun c head => (keyPlain c (List.mem_of_head? head)).1
    · exact fun c last => (keyPlain c (List.mem_of_getLast? last)).1
    · exact fun there => (keyPlain 61 there).2.2.1 rfl
    · obtain ⟨c, rest, key⟩ := List.exists_cons_of_ne_nil given
      have plain := keyPlain c (key ▸ List.mem_cons_self)
      exact ⟨c, rest, key, plain.2.2.2⟩
  intro item written
  rcases List.mem_cons.mp written with rfl | written
  · exact header
  · rw [List.mem_singleton.mp written]
    exact line

/-- **Configurations are written and read.** Every file at all, and none, gives a valid
configuration. A valid configuration is read back from every file whose last word on each setting
is its own, and from every file that it was written to, whatever stands before it. -/
theorem config_round_trip :
    (∀ link cfgFile file, (AdapterConfig.load link cfgFile file).Valid) ∧
      (∀ (cfg : AdapterConfig) (items : List IniItem), cfg.Valid →
        (∀ item ∈ items, item.WellFormed) →
        (∀ setting ∈ cfg.settings, (items.foldl IniItem.apply {}).sections
          (bytesOf setting.1.1, bytesOf setting.1.2) = some setting.2) →
        ∀ link cfgFile, AdapterConfig.load link cfgFile (some (iniFile items)) =
          { cfg with exeDir := getExeDir link, configFile := cfgFile }) ∧
      ∀ (cfg : AdapterConfig) (before : List IniItem), cfg.Valid →
        (∀ item ∈ before, item.WellFormed) → (∀ setting ∈ cfg.settings, 10 ∉ setting.2) →
        ∀ link cfgFile, AdapterConfig.load link cfgFile (some (iniFile (before ++ cfg.items))) =
          { cfg with exeDir := getExeDir link, configFile := cfgFile } := by
  have read : ∀ (cfg : AdapterConfig) (items : List IniItem), cfg.Valid →
      (∀ item ∈ items, item.WellFormed) →
      (∀ setting ∈ cfg.settings, (items.foldl IniItem.apply {}).sections
        (bytesOf setting.1.1, bytesOf setting.1.2) = some setting.2) →
      ∀ link cfgFile, AdapterConfig.load link cfgFile (some (iniFile items)) =
        { cfg with exeDir := getExeDir link, configFile := cfgFile } := by
    intro cfg items valid well settled
    refine load_settled valid ?_
    rw [load_iniFile well]
    exact settled
  refine ⟨valid_load, read, ?_⟩
  intro cfg before valid well oneLine
  refine read cfg (before ++ cfg.items) valid ?_ ?_
  · intro item member
    rcases List.mem_append.mp member with first | written
    · exact well item first
    · obtain ⟨setting, there, inside⟩ := List.mem_flatMap.mp written
      exact wellFormed_written there (oneLine setting there) item inside
  · intro setting member
    rw [List.foldl_append]
    exact sections_written (settings_nodup cfg) _ setting member

/-- A configuration that changes something of each kind. -/
def sampleConfig : AdapterConfig where
  server := { extraListenPorts := [502, 7041], maxConnections := -1 }
  etherdb := { port := 65535, password := bytesOf " 'a=b' ", createTables := false, batchRows := 1 }
  log := { dir := [], level := bytesOf "# debug" }
  zmq := { enabled := true }
  exeDir := bytesOf "/opt/adapter"
  configFile := bytesOf "etherAdapter.cfg"

/-- A comment, a section, and a setting that is overruled later. -/
def sampleLines : List IniItem :=
  [.comment [32] 35 (bytesOf " ports"), .header [] (bytesOf "server") [32, 13],
    .setting [9] (bytesOf "maxConnections") [32] [32] none (bytesOf "12") [13]]

theorem config_round_trip_sample :
    AdapterConfig.load (some (bytesOf "/opt/adapter/etherAdapter")) (bytesOf "etherAdapter.cfg")
      (some (iniFile (sampleLines ++ sampleConfig.items))) = sampleConfig := by
  refine config_round_trip.2.2 sampleConfig sampleLines ?_ ?_ (by decide +kernel) _ _
  · exact ⟨by decide, ⟨by decide, by decide⟩, ⟨by decide, by decide⟩, ⟨by decide, by decide⟩,
      ⟨by decide, by decide⟩, ⟨by decide, by decide⟩⟩
  · have blank : IsSpace [32] := List.all_eq_true.mp rfl
    have tab : IsSpace [9] := List.all_eq_true.mp rfl
    have ending : IsSpace [13] := List.all_eq_true.mp rfl
    have behind : IsSpace [32, 13] := List.all_eq_true.mp rfl
    have comment : (IniItem.comment [32] 35 (bytesOf " ports")).WellFormed :=
      ⟨by decide, blank, Or.inl rfl⟩
    have header : (IniItem.header [] (bytesOf "server") [32, 13]).WellFormed :=
      ⟨by decide, List.forall_mem_nil _, behind⟩
    have key : Trimmed (bytesOf "maxConnections") := by
      refine ⟨?_, ?_⟩
      · rintro c ⟨⟩
        rfl
      · rintro c ⟨⟩
        rfl
    have value : Trimmed (bytesOf "12") := by
      refine ⟨?_, ?_⟩
      · rintro c ⟨⟩
        rfl
      · rintro c ⟨⟩
        rfl
    have line : (IniItem.setting [9] (bytesOf "maxConnections") [32] [32] none (bytesOf "12")
        [13]).WellFormed :=
      ⟨by decide, ⟨tab, blank, blank, ending⟩,
        ⟨key, by decide, 109, bytesOf "axConnections", rfl, by decide, by decide, by decide⟩,
        value, by decide⟩
    intro item member
    rcases List.mem_cons.mp member with rfl | member
    · exact comment
    · rcases List.mem_cons.mp member with rfl | member
      · exact header
      · rw [List.mem_singleton.mp member]
        exact line

end EtherAdapter
