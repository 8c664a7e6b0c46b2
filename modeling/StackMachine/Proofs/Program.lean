import StackMachine.Program

namespace StackMachine.Program

theorem length_header : header.length = headerSize := rfl

theorem toList_body (p : Program) : p.body.toList = p.bytes.toList.drop headerSize := by
  rw [Program.body, Array.toList_extract, List.extract_eq_take_drop]
  apply List.take_of_length_le
  simp

theorem length_header_bytes (p : Program) :
    (p.bytes.toList.take headerSize).length = headerSize := by
  rw [List.length_take, Array.length_toList]
  exact Nat.min_eq_left p.header_le

theorem toList_ofBody (body : Array UInt8) :
    (ofBody body).bytes.toList = header ++ body.toList := by
  simp [ofBody]

theorem body_ofBody (body : Array UInt8) : (ofBody body).body = body := by
  have hsize : header.toArray.size = headerSize := length_header
  simp [Program.body, ofBody, ← hsize]

theorem version_ofBody (body : Array UInt8) : (ofBody body).version = newest := by
  have hsize : header.toArray.size = headerSize := length_header
  have hbyte {i : Nat} (hi : i < headerSize) :
      (header.toArray ++ body).getD i 0 = header.toArray.getD i 0 := by
    rw [Array.getD_eq_getD_getElem?, Array.getD_eq_getD_getElem?,
      Array.getElem?_append_left (hsize ▸ hi)]
  rw [version, ofBody, versionOf, hbyte (by decide), hbyte (by decide), hbyte (by decide),
    hbyte (by decide)]
  decide

/-- A program that is made of a body is read again as itself. -/
theorem ofBytes_ofBody (body : Array UInt8) : ofBytes (ofBody body).bytes = .ok (ofBody body) := by
  have hmagic : ((ofBody body).bytes.extract 0 4).toList = magic := by
    rw [Array.toList_extract, List.extract_eq_take_drop, toList_ofBody]
    rfl
  have hversion : versionOf (ofBody body).bytes ≤ newest := by
    rw [← version, version_ofBody]
    decide
  rw [ofBytes, dif_pos (ofBody body).header_le]
  simp only [hmagic, hversion, ↓reduceIte]

end StackMachine.Program
