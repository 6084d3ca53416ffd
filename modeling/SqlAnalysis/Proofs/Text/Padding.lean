import SqlAnalysis.Proofs.Binary64.Numerals
import SqlAnalysis.Proofs.Text.Digits

/-!
# Numbers at full width

A number with zeros in front has the width it was given, if it fits, and is read as the same
number. Texts are ordered by their bytes; for ASCII texts that is the order of the characters,
so padded numbers of one width are ordered as the numbers.
-/
namespace SqlAnalysis.Text

/-! ### Padding -/

theorem toList_padded (width n : Nat) : (padded width n).toList =
    List.replicate (width - (Nat.toDigits 10 n).length) '0' ++ Nat.toDigits 10 n := by
  rw [padded, String.toList_ofList, show (toString n).toList = Nat.toDigits 10 n from
    Nat.toList_repr]

theorem digits_padded (width n : Nat) : Scan.Digits (padded width n).toList where
  ne_nil := by
    rw [toList_padded]
    exact List.append_ne_nil_of_right_ne_nil _ Nat.toDigits_ne_nil
  all := by
    rw [toList_padded, List.all_append, Bool.and_eq_true]
    exact ⟨Binary64.all_replicate_zero _, (digits_toDigits n).all⟩

@[simp] theorem digitsValue_padded (width n : Nat) : digitsValue (padded width n).toList = n := by
  rw [toList_padded, digitsValue_zeros, digitsValue_toDigits]

theorem length_padded {width n : Nat} (hwidth : 0 < width) (h : n < 10 ^ width) :
    (padded width n).toList.length = width := by
  have hfits := (Nat.length_toDigits_le_iff (by decide) hwidth).mpr h
  rw [toList_padded, List.length_append, List.length_replicate]
  omega

/-! ### The order of texts -/

/-- The bytes of an encoded text. -/
def bytes (s : String) : List UInt8 :=
  s.toUTF8.data.toList

theorem bytes_eq_flatMap (s : String) : bytes s = s.toList.flatMap String.utf8EncodeChar := by
  rw [bytes, String.toUTF8, ← String.utf8Encode_toList, List.utf8Encode, List.data_toByteArray]

/-- Whether a text has only characters that are encoded as one byte. -/
def IsAscii (cs : List Char) : Prop :=
  ∀ c ∈ cs, c.toNat < 128

/-- The one byte of an ASCII character. -/
def asciiByte (c : Char) : UInt8 :=
  UInt8.ofNat c.toNat

theorem toNat_asciiByte {c : Char} (h : c.toNat < 128) : (asciiByte c).toNat = c.toNat := by
  rw [asciiByte, UInt8.toNat_ofNat', Nat.mod_eq_of_lt (by omega)]

theorem asciiByte_lt_iff {c d : Char} (hc : c.toNat < 128) (hd : d.toNat < 128) :
    asciiByte c < asciiByte d ↔ c < d := by
  rw [UInt8.lt_iff_toNat_lt, toNat_asciiByte hc, toNat_asciiByte hd, Char.lt_def,
    UInt32.lt_iff_toNat_lt]
  rfl

theorem asciiByte_inj {c d : Char} (hc : c.toNat < 128) (hd : d.toNat < 128) :
    asciiByte c = asciiByte d ↔ c = d := by
  rw [← UInt8.toNat_inj, toNat_asciiByte hc, toNat_asciiByte hd]
  exact ⟨fun h => Char.ext (UInt32.toNat_inj.mp h), fun h => h ▸ rfl⟩

theorem flatMap_utf8EncodeChar {cs : List Char} (h : IsAscii cs) :
    cs.flatMap String.utf8EncodeChar = cs.map asciiByte := by
  induction cs with
  | nil => rfl
  | cons c cs ih =>
    obtain ⟨hc, hcs⟩ := List.forall_mem_cons.mp h
    have hone : c.val.toNat ≤ 127 := Nat.le_of_lt_succ hc
    rw [List.flatMap_cons, ih hcs, String.utf8EncodeChar, if_pos hone]
    rfl

theorem bytes_of_isAscii {s : String} (h : IsAscii s.toList) :
    bytes s = s.toList.map asciiByte := by
  rw [bytes_eq_flatMap, flatMap_utf8EncodeChar h]

theorem map_asciiByte_lt_iff {cs ds : List Char} (hc : IsAscii cs) (hd : IsAscii ds) :
    cs.map asciiByte < ds.map asciiByte ↔ cs < ds := by
  induction cs generalizing ds with
  | nil => cases ds <;> simp
  | cons c cs ih =>
    cases ds with
    | nil => simp
    | cons d ds =>
      obtain ⟨hc, hcs⟩ := List.forall_mem_cons.mp hc
      obtain ⟨hd, hds⟩ := List.forall_mem_cons.mp hd
      rw [List.map_cons, List.map_cons, List.cons_lt_cons_iff, List.cons_lt_cons_iff,
        asciiByte_lt_iff hc hd, asciiByte_inj hc hd, ih hcs hds]

theorem bytes_lt_iff {s t : String} (hs : IsAscii s.toList) (ht : IsAscii t.toList) :
    bytes s < bytes t ↔ s.toList < t.toList := by
  rw [bytes_of_isAscii hs, bytes_of_isAscii ht, map_asciiByte_lt_iff hs ht]

theorem append_lt_append_iff {as bs : List Char} (h : as.length = bs.length) (cs ds : List Char) :
    as ++ cs < bs ++ ds ↔ as < bs ∨ as = bs ∧ cs < ds := by
  induction as generalizing bs with
  | nil =>
    rw [List.eq_nil_of_length_eq_zero h.symm]
    simp
  | cons a as ih =>
    obtain _ | ⟨b, bs⟩ := bs
    · cases h
    rw [List.cons_append, List.cons_append, List.cons_lt_cons_iff, ih (Nat.succ.inj h),
      List.cons_lt_cons_iff, List.cons.injEq]
    tauto

theorem padded_lt_iff {width m n : Nat} (hwidth : 0 < width) (hm : m < 10 ^ width)
    (hn : n < 10 ^ width) : (padded width m).toList < (padded width n).toList ↔ m < n := by
  have hlength := (length_padded hwidth hm).trans (length_padded hwidth hn).symm
  rw [← digitsValue_lt_iff hlength (digits_padded width m).all (digits_padded width n).all,
    digitsValue_padded, digitsValue_padded]

theorem padded_inj {width m n : Nat} :
    (padded width m).toList = (padded width n).toList ↔ m = n := by
  refine ⟨fun h => ?_, fun h => h ▸ rfl⟩
  simpa using congrArg digitsValue h

end SqlAnalysis.Text
