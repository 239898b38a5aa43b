import Mathlib

/-! The order of texts by their characters and the order by their bytes in UTF-8 are the same, so
the files of a folder stand in the order of the bytes of their names. -/
namespace Gcode

def utf8Bytes (text : String) : List UInt8 := text.toUTF8.data.toList

/-- The order of the bytes of texts, where a text stands behind those that it starts with. -/
def ByteLt (a b : String) : Prop := List.Lex (· < ·) (utf8Bytes a) (utf8Bytes b)

theorem utf8Bytes_eq (text : String) :
    utf8Bytes text = text.toList.flatMap String.utf8EncodeChar := by
  conv_lhs => rw [← String.ofList_toList (s := text)]
  rw [utf8Bytes, String.toUTF8, String.toByteArray_ofList, List.utf8Encode,
    List.toList_data_toByteArray]

/-- The first bytes decide, and those behind them where these are equal. -/
theorem lex_ofNat_cons {m n : Nat} {u v : List UInt8} (hn : n < 256) (hle : m ≤ n)
    (h : m = n → List.Lex (· < ·) u v) :
    List.Lex (· < ·) (UInt8.ofNat m :: u) (UInt8.ofNat n :: v) := by
  rcases Nat.lt_or_eq_of_le hle with hlt | rfl
  · refine .rel (UInt8.lt_iff_toNat_lt.mpr ?_)
    rwa [UInt8.toNat_ofNat_of_lt' (hlt.trans hn), UInt8.toNat_ofNat_of_lt' hn]
  · exact .cons (h rfl)

/-- A character of more bytes has a greater first byte. Of as many bytes, each holds a digit of
the number of the character, the highest in front. -/
theorem lex_utf8EncodeChar {c d : Char} (h : c < d) (u v : List UInt8) :
    List.Lex (· < ·) (String.utf8EncodeChar c ++ u) (String.utf8EncodeChar d ++ v) := by
  have hcd : c.val.toNat < d.val.toNat := h
  have hd : d.val.toNat < 1114112 := by rcases d.valid with h | ⟨_, h⟩ <;> omega
  simp only [String.utf8EncodeChar]
  generalize c.val.toNat = m at hcd
  generalize d.val.toNat = n at hcd hd
  split_ifs <;> simp only [List.cons_append, List.nil_append] <;>
    repeat' first | omega | refine lex_ofNat_cons (by omega) (by omega) fun _ => ?_

theorem lex_flatMap_utf8EncodeChar {cs ds : List Char} (h : List.Lex (· < ·) cs ds) :
    List.Lex (· < ·) (cs.flatMap String.utf8EncodeChar) (ds.flatMap String.utf8EncodeChar) := by
  induction h with
  | @nil d ds =>
    obtain ⟨b, bs, hb⟩ := List.exists_cons_of_ne_nil (String.utf8EncodeChar_ne_nil (c := d))
    rw [List.flatMap_cons, hb]
    exact .nil
  | rel hcd => exact lex_utf8EncodeChar hcd _ _
  | cons _ ih => exact List.Lex.append_left _ ih _

theorem byteLt_of_lt {a b : String} (h : a < b) : ByteLt a b := by
  rw [ByteLt, utf8Bytes_eq, utf8Bytes_eq]
  exact lex_flatMap_utf8EncodeChar (String.lt_iff_toList_lt.mp h)

end Gcode
