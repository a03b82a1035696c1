import Mathlib.Data.List.Basic
import CodeIndex.Text.Utf8
/-!
# Bytes of a text

The bytes of a text that is put together are the bytes of its pieces, one after the other.
-/

namespace CodeIndex.Text

theorem toList_loop (bytes : ByteArray) (i : Nat) (taken : List UInt8) :
    ByteArray.toList.loop bytes i taken = taken.reverse ++ bytes.data.toList.drop i := by
  induction i, taken using ByteArray.toList.loop.induct bytes with
  | case1 i taken hlt ih =>
      have hget : bytes.data.toList.drop i = bytes.get! i :: bytes.data.toList.drop (i + 1) := by
        have hlength : i < bytes.data.toList.length := by simpa using hlt
        have hbyte : bytes.get! i = bytes.data.toList[i] := by
          rw [ByteArray.get!, Array.getElem_toList, getElem!_pos bytes.data i hlt]
        rw [hbyte]
        exact List.drop_eq_getElem_cons hlength
      rw [ByteArray.toList.loop, if_pos hlt, ih, hget, List.reverse_cons, List.append_assoc,
        List.singleton_append]
  | case2 i taken hge =>
      have hlength : bytes.data.toList.length ≤ i := by
        rw [Array.length_toList]
        exact Nat.le_of_not_lt hge
      rw [ByteArray.toList.loop, if_neg hge, List.drop_of_length_le hlength, List.append_nil]

theorem toList_eq (bytes : ByteArray) : bytes.toList = bytes.data.toList := by
  unfold ByteArray.toList
  rw [toList_loop, List.reverse_nil, List.nil_append, List.drop_zero]

theorem toList_toUTF8_append (s t : String) :
    (s ++ t).toUTF8.toList = s.toUTF8.toList ++ t.toUTF8.toList := by
  have happend : (s ++ t).toUTF8 = s.toUTF8 ++ t.toUTF8 := String.toByteArray_append
  rw [happend, toList_eq, toList_eq, toList_eq, ByteArray.data_append, Array.toList_append]

end CodeIndex.Text
