import Mathlib.Data.List.DropRight
import Mathlib.Tactic.SplitIfs
import SqlAnalysis.Proofs.Source.Positions
import SqlAnalysis.Proofs.Source.Ranges
import SqlAnalysis.Proofs.Text.Padding

/-!
# Lines of a text

The position of an offset counts the newlines before it and the bytes since the last of them,
inside a character as well as between two. Positions compose: behind two pieces of a text one
is as far behind the first as the second reaches. The offsets of a text stand for just the
positions on its lines, each for one of them.
-/
namespace SqlAnalysis

namespace Text

/-- The byte that ends a line. -/
def newline : UInt8 :=
  asciiByte '\n'

theorem utf8EncodeChar_newline : String.utf8EncodeChar '\n' = [newline] := by
  decide

/-- No other character has the byte of a newline in its encoding. -/
theorem newline_notMem_utf8EncodeChar {c : Char} (h : c ≠ '\n') :
    newline ∉ String.utf8EncodeChar c := by
  have hvalue : c.val.toNat ≠ 10 := fun heq => h (Char.ext (UInt32.toNat_inj.mp heq))
  have hnewline : newline.toNat = 10 := by decide
  -- A single byte is the number of the character; of several bytes each is at least 128.
  simp only [String.utf8EncodeChar]
  generalize c.val.toNat = v at hvalue
  split_ifs <;> simp [← UInt8.toNat_inj, hnewline] <;> omega

theorem length_bytes (s : String) : (bytes s).length = byteSize s := by
  rw [bytes_eq_flatMap, byteSize]
  induction s.toList with
  | nil => rfl
  | cons c cs ih =>
    rw [List.flatMap_cons, List.length_append, ih, String.length_utf8EncodeChar, byteLength_cons]

end Text

namespace Position

variable {b : UInt8} {bs : List UInt8} {p : Position}

/-! ### Positions behind bytes -/

/-- The position behind some bytes: how many newlines are among them, and how many bytes come
after the last newline. -/
def behind (bytes : List UInt8) : Position :=
  ⟨bytes.count Text.newline, (bytes.rtakeWhile (· != Text.newline)).length⟩

/-- The position that lies as far behind `p` as `q` lies behind the beginning. -/
def advance (p q : Position) : Position :=
  if q.line = 0 then ⟨p.line, p.column + q.column⟩ else ⟨p.line + q.line, q.column⟩

theorem advance_origin (p : Position) : p.advance ⟨0, 0⟩ = p := rfl

theorem advance_assoc (p q r : Position) : (p.advance q).advance r = p.advance (q.advance r) := by
  unfold advance
  split_ifs <;> simp_all <;> omega

theorem advance_line (q : Position) : advance ⟨1, 0⟩ q = ⟨q.line + 1, q.column⟩ := by
  unfold advance
  split_ifs with hline
  · rw [hline, Nat.zero_add]
  · rw [Nat.add_comm]

theorem advance_column (column : Nat) : advance ⟨0, 1⟩ ⟨0, column⟩ = ⟨0, column + 1⟩ := by
  rw [advance, if_pos rfl, Nat.add_comm]

theorem advance_column_succ (line column : Nat) :
    advance ⟨0, 1⟩ ⟨line + 1, column⟩ = ⟨line + 1, column⟩ := by
  rw [advance, if_neg (Nat.succ_ne_zero line), Nat.zero_add]

theorem behind_nil : behind [] = ⟨0, 0⟩ := rfl

theorem behind_newline : behind [Text.newline] = ⟨1, 0⟩ := by
  decide

theorem behind_singleton (hb : b ≠ Text.newline) : behind [b] = ⟨0, 1⟩ := by
  simp [behind, List.rtakeWhile, hb]

theorem behind_concat (bs : List UInt8) (b : UInt8) :
    behind (bs ++ [b]) = (behind bs).advance (behind [b]) := by
  by_cases hb : b = Text.newline
  · rw [hb, behind_newline]
    simp [behind, advance]
  · rw [behind_singleton hb]
    simp [behind, advance, hb]

theorem behind_append (as bs : List UInt8) :
    behind (as ++ bs) = (behind as).advance (behind bs) := by
  induction bs using List.reverseRecOn with
  | nil => rw [List.append_nil, behind_nil, advance_origin]
  | append_singleton bs b ih =>
    rw [← List.append_assoc, behind_concat, ih, behind_concat bs, advance_assoc]

theorem behind_cons (b : UInt8) (bs : List UInt8) :
    behind (b :: bs) = (behind [b]).advance (behind bs) :=
  behind_append [b] bs

/-! ### Positions on lines -/

/-- The position is on one of the lines, at most behind the last byte of that line. -/
def StandsOn (p : Position) (lines : List (List UInt8)) : Prop :=
  ∃ line, lines[p.line]? = some line ∧ p.column ≤ line.length

/-- An empty line in front moves the positions on the other lines down by one line. -/
theorem standsOn_nil_cons {lines : List (List UInt8)} : p.StandsOn ([] :: lines) ↔
    p = ⟨0, 0⟩ ∨ ∃ q : Position, q.StandsOn lines ∧ advance ⟨1, 0⟩ q = p := by
  simp only [advance_line]
  constructor
  · rintro ⟨line, hline, hcolumn⟩
    match p with
    | ⟨0, column⟩ =>
      cases hline
      cases Nat.le_zero.mp hcolumn
      exact .inl rfl
    | ⟨n + 1, column⟩ => exact .inr ⟨⟨n, column⟩, ⟨line, hline, hcolumn⟩, rfl⟩
  · rintro (rfl | ⟨q, ⟨line, hline, hcolumn⟩, rfl⟩)
    · exact ⟨[], rfl, Nat.le_refl 0⟩
    · exact ⟨line, hline, hcolumn⟩

theorem standsOn_singleton_nil : p.StandsOn [[]] ↔ p = ⟨0, 0⟩ := by
  rw [standsOn_nil_cons]
  simp [StandsOn]

/-- A byte in front of the first line moves the positions on that line on by one column. -/
theorem standsOn_cons_cons {first : List UInt8} {rest : List (List UInt8)} :
    p.StandsOn ((b :: first) :: rest) ↔
      p = ⟨0, 0⟩ ∨ ∃ q : Position, q.StandsOn (first :: rest) ∧ advance ⟨0, 1⟩ q = p := by
  constructor
  · rintro ⟨line, hline, hcolumn⟩
    match p with
    | ⟨0, 0⟩ => exact .inl rfl
    | ⟨0, column + 1⟩ =>
      cases hline
      exact .inr ⟨⟨0, column⟩, ⟨first, rfl, Nat.le_of_succ_le_succ hcolumn⟩,
        advance_column column⟩
    | ⟨n + 1, column⟩ =>
      exact .inr ⟨⟨n + 1, column⟩, ⟨line, hline, hcolumn⟩, advance_column_succ n column⟩
  · rintro (rfl | ⟨⟨_ | n, column⟩, ⟨line, hline, hcolumn⟩, rfl⟩)
    · exact ⟨b :: first, rfl, Nat.zero_le _⟩
    · cases hline
      rw [advance_column]
      exact ⟨b :: first, rfl, Nat.succ_le_succ hcolumn⟩
    · rw [advance_column_succ]
      exact ⟨line, hline, hcolumn⟩

theorem standsOn_splitOn_cons : p.StandsOn ((b :: bs).splitOn Text.newline) ↔ p = ⟨0, 0⟩ ∨
    ∃ q : Position, q.StandsOn (bs.splitOn Text.newline) ∧ (behind [b]).advance q = p := by
  rw [List.splitOn_cons_eq_if_modifyHead]
  by_cases hb : b = Text.newline
  · rw [hb, behind_newline, if_pos (beq_self_eq_true _), standsOn_nil_cons]
  · obtain ⟨first, rest, hlines⟩ := List.exists_cons_of_ne_nil (bs.splitOn_ne_nil Text.newline)
    rw [behind_singleton hb, if_neg (by simpa using hb), hlines, List.modifyHead_cons,
      standsOn_cons_cons]

/-- The positions behind the initial parts of some bytes are those on the lines of all bytes. -/
theorem exists_behind_take_iff :
    (∃ o ≤ bs.length, behind (bs.take o) = p) ↔ p.StandsOn (bs.splitOn Text.newline) := by
  induction bs generalizing p with
  | nil =>
    rw [List.splitOn_nil, standsOn_singleton_nil]
    constructor
    · rintro ⟨o, -, rfl⟩
      rw [List.take_nil, behind_nil]
    · rintro rfl
      exact ⟨0, Nat.le_refl 0, rfl⟩
  | cons b bs ih =>
    rw [standsOn_splitOn_cons]
    simp only [← ih]
    constructor
    · rintro ⟨_ | o, hle, rfl⟩
      · exact .inl rfl
      · exact .inr ⟨_, ⟨o, Nat.le_of_succ_le_succ hle, rfl⟩, (behind_cons b _).symm⟩
    · rintro (rfl | ⟨_, ⟨o, hle, rfl⟩, rfl⟩)
      · exact ⟨0, Nat.zero_le _, rfl⟩
      · exact ⟨o + 1, Nat.succ_le_succ hle, behind_cons b _⟩

end Position

namespace LineIndex

open Text (newline)

variable {source : String} {o : Nat} {p : Position}

/-! ### The index of the bytes -/

theorem startsFrom_eq_map_idxsOf (offset : Nat) (cs : List Char) : startsFrom offset cs =
    ((cs.flatMap String.utf8EncodeChar).idxsOf newline offset).map (· + 1) := by
  induction cs generalizing offset with
  | nil => rfl
  | cons c cs ih =>
    rw [List.flatMap_cons, List.idxsOf_append, List.map_append, String.length_utf8EncodeChar,
      ← ih, startsFrom]
    by_cases hc : c = '\n'
    · rw [if_pos hc, hc, Text.utf8EncodeChar_newline]
      rfl
    · have hnone : (String.utf8EncodeChar c).idxsOf newline offset = [] := by
        rw [List.idxsOf_eq_nil_iff]
        rintro b hb
        exact beq_false_of_ne fun heq => Text.newline_notMem_utf8EncodeChar hc (heq ▸ hb)
      rw [if_neg hc, hnone]
      rfl

/-- A line begins behind every newline byte. -/
theorem laterStarts_ofText (source : String) : (ofText source).laterStarts =
    ((Text.bytes source).idxsOf newline).map (· + 1) := by
  rw [ofText, startsFrom_eq_map_idxsOf, Text.bytes_eq_flatMap]

theorem succ_mem_laterStarts_iff (h : o < (Text.bytes source).length) :
    o + 1 ∈ (ofText source).laterStarts ↔ (Text.bytes source)[o] = newline := by
  simp [laterStarts_ofText, h]

theorem pairwise_laterStarts (source : String) :
    (ofText source).laterStarts.Pairwise (· < ·) := by
  rw [laterStarts_ofText, List.pairwise_map]
  exact List.pairwise_idxsOf.imp Nat.succ_lt_succ

/-! ### Positions of offsets -/

/-- One offset on, the walk is at the start of the next line if one begins there, and else one
column further. -/
theorem locate_succ {offset : Nat} {later : List Nat} (hsorted : later.Pairwise (· < ·)) :
    ∀ line start, start ≤ offset → locate (offset + 1) line start later =
      (locate offset line start later).advance
        (if offset + 1 ∈ later then ⟨1, 0⟩ else ⟨0, 1⟩) := by
  induction hsorted with
  | nil =>
    intro line start hstart
    simp [locate, Position.advance, Nat.succ_sub hstart]
  | @cons next later hnext hsorted ih =>
    intro line start hstart
    by_cases hle : next ≤ offset
    · have hne : offset + 1 ≠ next := by omega
      simpa [locate, hle, Nat.le_succ_of_le hle, hne] using ih (line + 1) next hle
    · -- The line at `offset` is the one of `start`; the next begins right behind or further on.
      have hlater : ∀ begin ∈ later, offset + 1 < begin := fun begin hbegin => by
        have := hnext begin hbegin
        omega
      have hhere : locate offset line start (next :: later) = ⟨line, offset - start⟩ :=
        if_neg hle
      by_cases heq : next = offset + 1
      · have hthere : locate (offset + 1) line start (next :: later) = ⟨line + 1, 0⟩ := by
          rw [locate, if_pos (Nat.le_of_eq heq), locate_eq_of_lt hlater, heq, Nat.sub_self]
        rw [hhere, hthere, if_pos (heq ▸ List.mem_cons_self)]
        rfl
      · have hall : ∀ begin ∈ next :: later, offset + 1 < begin :=
          List.forall_mem_cons.mpr ⟨by omega, hlater⟩
        rw [hhere, locate_eq_of_lt hall, if_neg fun hmem => Nat.lt_irrefl _ (hall _ hmem),
          Nat.succ_sub hstart]
        rfl

theorem position_zero (source : String) : (ofText source).position 0 = ⟨0, 0⟩ :=
  position_byteLength (List.nil_append source.toList).symm

/-- From one offset to the next the position moves on by the byte between them. -/
theorem position_succ (h : o < (Text.bytes source).length) :
    (ofText source).position (o + 1) =
      ((ofText source).position o).advance (Position.behind [(Text.bytes source)[o]]) := by
  have hlength : o + 1 ≤ (ofText source).length := h.trans_eq (Text.length_bytes source)
  rw [position, position, Nat.min_eq_left hlength, Nat.min_eq_left (Nat.le_of_succ_le hlength),
    locate_succ (pairwise_laterStarts source) 0 0 (Nat.zero_le o)]
  congr 1
  by_cases hb : (Text.bytes source)[o] = newline
  · rw [if_pos ((succ_mem_laterStarts_iff h).mpr hb), hb, Position.behind_newline]
  · rw [if_neg (mt (succ_mem_laterStarts_iff h).mp hb), Position.behind_singleton hb]

/-- The position of an offset is the one behind the bytes before it. -/
theorem position_eq_behind (h : o ≤ (Text.bytes source).length) :
    (ofText source).position o = Position.behind ((Text.bytes source).take o) := by
  induction o with
  | zero => rw [position_zero, List.take_zero, Position.behind_nil]
  | succ o ih =>
    calc (ofText source).position (o + 1)
        = ((ofText source).position o).advance (Position.behind [(Text.bytes source)[o]]) :=
          position_succ h
      _ = (Position.behind ((Text.bytes source).take o)).advance
            (Position.behind [(Text.bytes source)[o]]) := by
          rw [ih (Nat.le_of_succ_le h)]
      _ = Position.behind ((Text.bytes source).take (o + 1)) := by
          rw [← Position.behind_append, List.take_append_getElem]

/-! ### Offsets of positions -/

theorem offset?_le {index : LineIndex} (h : index.offset? p = some o) : o ≤ index.length := by
  obtain ⟨start, -, rfl⟩ := Option.map_eq_some_iff.mp h
  exact Nat.min_le_right _ _

/-- A position leads to an offset and back just if it is on a line of the text. -/
theorem exists_offset?_iff :
    (∃ o, (ofText source).offset? p = some o ∧ (ofText source).position o = p) ↔
      p.StandsOn ((Text.bytes source).splitOn newline) := by
  have hlength := Text.length_bytes source
  rw [← Position.exists_behind_take_iff]
  constructor
  · rintro ⟨o, hoffset, rfl⟩
    have ho : o ≤ (Text.bytes source).length := (offset?_le hoffset).trans_eq hlength.symm
    exact ⟨o, ho, (position_eq_behind ho).symm⟩
  · rintro ⟨o, ho, rfl⟩
    rw [← position_eq_behind ho]
    exact ⟨o, offset?_position _ (ho.trans_eq hlength), rfl⟩

/-- Offsets and positions correspond: positions follow one another as the offsets do, each
offset is found again from its position, the positions that are found again from their offset
are those on a line of the text, and a position counts newlines and bytes. -/
theorem positions_match_offsets (source : String) :
    (∀ a b, a < b → b ≤ (Text.bytes source).length →
        (ofText source).position a < (ofText source).position b) ∧
      (∀ o ≤ (Text.bytes source).length,
        (ofText source).offset? ((ofText source).position o) = some o) ∧
      (∀ p : Position,
        (∃ o, (ofText source).offset? p = some o ∧ (ofText source).position o = p) ↔
          p.StandsOn ((Text.bytes source).splitOn newline)) ∧
      ∀ o ≤ (Text.bytes source).length,
        (ofText source).position o = Position.behind ((Text.bytes source).take o) := by
  have hlength := Text.length_bytes source
  refine ⟨fun a b hab hb => ?_, fun o ho => ?_, fun p => exists_offset?_iff,
    fun o ho => position_eq_behind ho⟩
  · exact position_lt _ hab (hb.trans_eq hlength)
  · exact offset?_position _ (ho.trans_eq hlength)

/-- The second byte of a character, a newline, an empty line and the end of the text. -/
theorem positions_match_offsets_inside :
    1 ≤ (Text.bytes "é\n\nab").length ∧
      (ofText "é\n\nab").offset? ((ofText "é\n\nab").position 1) = some 1 ∧
      (ofText "é\n\nab").position 2 < (ofText "é\n\nab").position 3 ∧
      (∃ o, (ofText "é\n\nab").offset? ⟨1, 0⟩ = some o ∧
        (ofText "é\n\nab").position o = ⟨1, 0⟩) ∧
      (ofText "é\n\nab").position 6 = ⟨2, 2⟩ := by
  have hbytes : Text.bytes "é\n\nab" = [0xC3, 0xA9, 10, 10, 97, 98] := by
    decide +kernel
  obtain ⟨hlt, hback, hline, hcount⟩ := positions_match_offsets "é\n\nab"
  rw [hbytes] at hlt hback hline hcount ⊢
  refine ⟨by decide, hback 1 (by decide), hlt 2 3 (by decide) (by decide), ?_, ?_⟩
  · exact (hline ⟨1, 0⟩).mpr ⟨[], by decide +kernel, Nat.le_refl 0⟩
  · exact (hcount 6 (by decide)).trans (by decide)

end LineIndex
end SqlAnalysis
