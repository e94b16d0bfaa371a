import Mathlib.Data.List.Basic
import Mathlib.Tactic.Ring
import StaticSite.Text.Percent

/-!
# Percent encoding

A text is decoded if its escapes and the bytes of its other characters are those of a text
(`Text.percentDecode?_eq_some_iff`). A character of one byte that no escape stands for is in the
decoded text where it is in the encoded one (`Text.mem_of_mem_percentBytes`,
`Text.exists_of_percentBytes_eq_cons`), and a `/` cuts both alike
(`Text.percentBytes_append_slash`).
-/

namespace StaticSite.Text

/-! ## Bytes -/

/-- The bytes of a text. -/
def bytes (s : List Char) : List UInt8 := s.flatMap String.utf8EncodeChar

theorem bytes_cons (c : Char) (s : List Char) :
    bytes (c :: s) = String.utf8EncodeChar c ++ bytes s := List.flatMap_cons

theorem bytes_append (s t : List Char) : bytes (s ++ t) = bytes s ++ bytes t := List.flatMap_append

theorem toByteArray_eq (s : String) : s.toByteArray = (bytes s.toList).toByteArray := by
  conv_lhs => rw [← String.ofList_toList (s := s), String.toByteArray_ofList]
  rfl

theorem bytes_injective {s t : List Char} (h : bytes s = bytes t) : s = t := by
  have h' : (String.ofList s).toByteArray = (String.ofList t).toByteArray := by
    rw [toByteArray_eq, toByteArray_eq, String.toList_ofList, String.toList_ofList, h]
  exact String.ofList_injective (String.toByteArray_inj.1 h')

/-- The byte of a character that has one byte. -/
def byteOf (c : Char) : UInt8 := UInt8.ofNat c.toNat

theorem utf8EncodeChar_of_lt {c : Char} (hc : c.toNat < 128) :
    String.utf8EncodeChar c = [byteOf c] := by
  have hv : c.val.toNat ≤ 127 := Nat.le_of_lt_succ hc
  rw [String.utf8EncodeChar, if_pos hv]
  rfl

theorem byteOf_ne {c : Char} (hc : c.toNat < 128) {n : Nat} (h : 128 ≤ n) (h' : n < 256) :
    byteOf c ≠ UInt8.ofNat n := by
  intro heq
  have := congrArg UInt8.toNat heq
  rw [byteOf, UInt8.toNat_ofNat', UInt8.toNat_ofNat'] at this
  omega

/-- A byte of one character is no byte of another one. -/
theorem eq_of_byteOf_mem {c d : Char} (hc : c.toNat < 128)
    (h : byteOf c ∈ String.utf8EncodeChar d) : d = c := by
  by_cases hd : d.val.toNat ≤ 127
  · rw [utf8EncodeChar_of_lt (Nat.lt_succ_of_le hd), List.mem_singleton] at h
    have hd' : d.toNat < 128 := Nat.lt_succ_of_le hd
    have heq := congrArg UInt8.toNat h
    rw [byteOf, byteOf, UInt8.toNat_ofNat', UInt8.toNat_ofNat'] at heq
    exact Char.toNat_inj.1 (by omega)
  · exfalso
    simp only [String.utf8EncodeChar, if_neg hd] at h
    split at h
    · rcases List.mem_pair.1 h with h | h
      · exact byteOf_ne hc (by omega) (by omega) h
      · exact byteOf_ne hc (by omega) (by omega) h
    · split at h
      · simp only [List.mem_cons, List.not_mem_nil, or_false] at h
        rcases h with h | h | h <;> exact byteOf_ne hc (by omega) (by omega) h
      · simp only [List.mem_cons, List.not_mem_nil, or_false] at h
        rcases h with h | h | h | h <;> exact byteOf_ne hc (by omega) (by omega) h

/-! ## Escapes -/

/-- The byte of an escape, given what follows its `%`. -/
def escaped? : List Char → Option UInt8
  | a :: b :: _ =>
    match hexValue? a, hexValue? b with
    | some x, some y => some (16 * x + y).toUInt8
    | _, _ => none
  | _ => none

/-- Whether an escape of the text stands for the character. -/
def escapes (c : Char) : List Char → Bool
  | [] => false
  | d :: s => (d == '%' && escaped? s == some (byteOf c)) || escapes c s

theorem percentBytes_percent (s : List Char) :
    percentBytes ('%' :: s) =
      match escaped? s with
      | some b => b :: percentBytes (s.drop 2)
      | none => String.utf8EncodeChar '%' ++ percentBytes s := by
  rcases s with _ | ⟨a, _ | ⟨b, s⟩⟩
  · rfl
  · rfl
  · rw [percentBytes, escaped?]
    rcases hexValue? a with _ | x
    · rfl
    · rcases hexValue? b with _ | y <;> rfl

theorem percentBytes_cons_of_ne {c : Char} (hc : c ≠ '%') (s : List Char) :
    percentBytes (c :: s) = String.utf8EncodeChar c ++ percentBytes s := by
  rw [percentBytes.eq_def]
  split
  · rename_i heq
    exact absurd (List.cons.inj heq).1 hc
  · rename_i heq
    obtain ⟨rfl, rfl⟩ := List.cons.inj heq
    rfl
  · contradiction

/-- What the first character of a text adds to its bytes. -/
theorem percentBytes_cons (c : Char) (s : List Char) :
    (∃ b, c = '%' ∧ escaped? s = some b ∧ percentBytes (c :: s) = b :: percentBytes (s.drop 2)) ∨
      percentBytes (c :: s) = String.utf8EncodeChar c ++ percentBytes s := by
  by_cases hc : c = '%'
  · subst hc
    rw [percentBytes_percent]
    rcases h : escaped? s with _ | b
    · exact .inr rfl
    · exact .inl ⟨b, rfl, rfl, rfl⟩
  · exact .inr (percentBytes_cons_of_ne hc s)

theorem percentBytes_eq_nil_iff {s : List Char} : percentBytes s = [] ↔ s = [] := by
  rcases s with _ | ⟨c, s⟩
  · exact iff_of_true rfl rfl
  · rcases percentBytes_cons c s with ⟨b, -, -, h⟩ | h
    · simp [h]
    · simp [h]

theorem percentBytes_of_not_mem {s : List Char} (h : '%' ∉ s) : percentBytes s = bytes s := by
  induction s with
  | nil => rfl
  | cons c s ih =>
    rw [percentBytes_cons_of_ne (fun hc => h (hc ▸ List.mem_cons_self ..)),
      ih fun hs => h (List.mem_cons_of_mem _ hs), bytes_cons]

theorem percentDecode?_eq_some_iff {s : List Char} {d : String} :
    percentDecode? s = some d ↔ percentBytes s = bytes d.toList := by
  have hb : (⟨(percentBytes s).toArray⟩ : ByteArray) = d.toByteArray ↔
      percentBytes s = bytes d.toList := by
    rw [toByteArray_eq, ByteArray.ext_iff, List.data_toByteArray, Array.mk.injEq]
  rw [← hb, percentDecode?, String.fromUTF8?]
  constructor
  · intro h
    split at h
    · rw [← Option.some.inj h]
      rfl
    · cases h
  · intro h
    simp only [h]
    rw [dif_pos d.isValidUTF8]
    rfl

/-! ## Cutting at `/` -/

theorem escaped?_append_slash (s t : List Char) : escaped? (s ++ '/' :: t) = escaped? s := by
  have h : hexValue? '/' = none := by decide
  rcases s with _ | ⟨a, _ | ⟨b, s⟩⟩
  · rcases t with _ | ⟨b, t⟩
    · rfl
    · rw [List.nil_append, escaped?, h]
      rfl
  · rw [List.singleton_append, escaped?, h]
    rcases hexValue? a <;> rfl
  · rfl

theorem percentBytes_append_slash (s t : List Char) :
    percentBytes (s ++ '/' :: t) = percentBytes s ++ byteOf '/' :: percentBytes t := by
  induction hn : s.length using Nat.strong_induction_on generalizing s with
  | _ n ih =>
    rcases s with _ | ⟨c, s⟩
    · exact percentBytes_cons_of_ne (by decide) t
    · rw [List.length_cons] at hn
      by_cases hc : c = '%'
      · subst hc
        rw [List.cons_append, percentBytes_percent, percentBytes_percent, escaped?_append_slash]
        rcases he : escaped? s with _ | b
        · dsimp only
          rw [ih s.length (by omega) s rfl, List.append_assoc]
        · have hs : 2 ≤ s.length := by
            rcases s with _ | ⟨a, _ | ⟨b, s⟩⟩
            · cases he
            · cases he
            · simp
          dsimp only
          rw [List.drop_append_of_le_length hs, ih (s.drop 2).length (by simp; omega) _ rfl,
            List.cons_append]
      · rw [List.cons_append, percentBytes_cons_of_ne hc, percentBytes_cons_of_ne hc,
          ih s.length (by omega) s rfl, List.append_assoc]

theorem escapes_append_slash (c : Char) (s t : List Char) :
    escapes c (s ++ '/' :: t) = (escapes c s || escapes c t) := by
  induction s with
  | nil => simp [escapes]
  | cons d s ih => rw [List.cons_append, escapes, escapes, ih, escaped?_append_slash, Bool.or_assoc]

/-! ## Characters that no escape stands for -/

variable {c : Char}

theorem escapes_drop {s : List Char} (n : Nat) (h : escapes c s = false) :
    escapes c (s.drop n) = false := by
  induction n generalizing s with
  | zero => exact h
  | succ n ih =>
    rcases s with _ | ⟨d, s⟩
    · rfl
    · rw [escapes, Bool.or_eq_false_iff] at h
      exact ih h.2

/-- A character that is decoded stands in the text. -/
theorem mem_of_mem_percentBytes (hc : c.toNat < 128) {s : List Char} (h : escapes c s = false)
    (hb : byteOf c ∈ percentBytes s) : c ∈ s := by
  induction hn : s.length using Nat.strong_induction_on generalizing s with
  | _ n ih =>
    rcases s with _ | ⟨d, s⟩
    · cases hb
    · rw [List.length_cons] at hn
      have hs : escapes c s = false := escapes_drop 1 h
      rcases percentBytes_cons d s with ⟨b, rfl, he, hp⟩ | hp
      · rw [hp] at hb
        rcases List.mem_cons.1 hb with rfl | hb
        · simp [escapes, he] at h
        · exact List.mem_cons_of_mem _ (List.mem_of_mem_drop
            (ih (s.drop 2).length (by simp; omega) (escapes_drop 2 hs) hb rfl))
      · rw [hp] at hb
        rcases List.mem_append.1 hb with hb | hb
        · rw [eq_of_byteOf_mem hc hb]
          exact List.mem_cons_self ..
        · exact List.mem_cons_of_mem _ (ih s.length (by omega) hs hb rfl)

/-- A character that is decoded first stands first in the text. -/
theorem exists_of_percentBytes_eq_cons (hc : c.toNat < 128) {s : List Char}
    (h : escapes c s = false) {bs : List UInt8} (hb : percentBytes s = byteOf c :: bs) :
    ∃ s', s = c :: s' ∧ percentBytes s' = bs := by
  rcases s with _ | ⟨d, s⟩
  · cases hb
  · rcases percentBytes_cons d s with ⟨b, rfl, he, hp⟩ | hp
    · rw [hp] at hb
      obtain ⟨rfl, -⟩ := List.cons.inj hb
      simp [escapes, he] at h
    · rw [hp] at hb
      obtain rfl : d = c := by
        refine eq_of_byteOf_mem hc ?_
        rcases hu : String.utf8EncodeChar d with _ | ⟨b, us⟩
        · exact absurd hu String.utf8EncodeChar_ne_nil
        · rw [hu] at hb
          rw [(List.cons.inj hb).1]
          exact List.mem_cons_self ..
      rw [utf8EncodeChar_of_lt hc] at hb
      exact ⟨s, rfl, (List.cons.inj hb).2⟩

end StaticSite.Text
