import QueryLabel.World

/-! Text in a world. Bytes are read as the one text that is written with them, if there is one. -/

namespace QueryLabel

variable {sql : String} {bytes : Bytes}

namespace Bytes

theorem toList_loop {b : ByteArray} {i : Nat} {r : List UInt8} :
    ByteArray.toList.loop b i r = r.reverse ++ b.data.toList.drop i := by
  fun_induction ByteArray.toList.loop b i r with
  | case1 i r hi ih =>
    have hlength : i < b.data.toList.length := by simpa using hi
    have hget : b.get! i = b.data.toList[i] := by
      rw [Array.getElem_toList]
      exact getElem!_pos b.data i hi
    rw [ih, List.drop_eq_getElem_cons hlength, hget]
    simp
  | case2 i r hi =>
    have hlength : b.data.toList.length ≤ i := by simpa using hi
    simp [List.drop_eq_nil_of_le hlength]

theorem toList_eq (b : ByteArray) : b.toList = b.data.toList := by
  rw [ByteArray.toList, toList_loop]
  simp

theorem text?_eq_some_iff : text? bytes = some sql ↔ bytes = ofString sql := by
  rw [ofString, toList_eq, text?, String.fromUTF8?]
  constructor
  · intro h
    split at h
    · cases h
      rfl
    · cases h
  · rintro rfl
    rw [Array.toArray_toList]
    exact dif_pos sql.isValidUTF8

end Bytes

namespace World

theorem decode_eq_ok_iff : decode bytes = .ok sql ↔ bytes = Bytes.ofString sql := by
  rw [← Bytes.text?_eq_some_iff]
  unfold decode
  split <;> simp_all

theorem decode_eq_error {e : ReadError} (h : decode bytes = .error e) :
    e = .notText ∧ ∀ sql, bytes ≠ Bytes.ofString sql := by
  constructor
  · unfold decode at h
    split at h <;> cases h
    rfl
  · intro sql hbytes
    rw [decode_eq_ok_iff.2 hbytes] at h
    cases h

end World

end QueryLabel
