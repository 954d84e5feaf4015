/-! The bytes of a text. Texts are put together by putting their bytes together, and no two texts have the same
bytes. -/
namespace StreamLexer.Text

/-- Bytes that are taken from an index on, behind those that were taken in reverse. -/
theorem toList_loop (bytes : ByteArray) (i : Nat) (taken : List UInt8) :
    ByteArray.toList.loop bytes i taken = taken.reverse ++ bytes.data.toList.drop i := by
  fun_induction ByteArray.toList.loop bytes i taken with
  | case1 i taken h ih =>
    have hi : i < bytes.data.toList.length := by simpa using h
    have hget : bytes.get! i = bytes.data.toList[i] := getElem!_pos bytes.data i h
    rw [ih, List.drop_eq_getElem_cons hi, hget]
    simp
  | case2 i taken h =>
    rw [List.drop_eq_nil_of_le (by simpa using h), List.append_nil]

theorem toList_eq_data (bytes : ByteArray) : bytes.toList = bytes.data.toList := toList_loop bytes 0 []

def utf8 (text : String) : List UInt8 := text.toUTF8.toList

theorem utf8_eq (text : String) : utf8 text = text.toByteArray.data.toList := toList_eq_data _

@[simp] theorem utf8_empty : utf8 "" = [] := by
  rw [utf8_eq]
  rfl

@[simp] theorem utf8_append (s t : String) : utf8 (s ++ t) = utf8 s ++ utf8 t := by
  simp [utf8_eq]

@[simp] theorem length_utf8 (text : String) : (utf8 text).length = text.utf8ByteSize := by
  rw [utf8_eq, Array.length_toList]
  rfl

theorem utf8_injective {s t : String} (h : utf8 s = utf8 t) : s = t := by
  rw [utf8_eq, utf8_eq] at h
  exact String.toByteArray_inj.1 (ByteArray.ext (Array.toList_inj.1 h))

/-- The bytes of texts that are put together. -/
theorem utf8_join (texts : List String) : utf8 (String.join texts) = texts.flatMap utf8 := by
  induction texts with
  | nil => exact utf8_empty
  | cons text texts ih => rw [String.join_cons, utf8_append, ih, List.flatMap_cons]

end StreamLexer.Text
