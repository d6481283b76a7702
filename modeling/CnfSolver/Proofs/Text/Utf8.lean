import CnfSolver.Text.Utf8
import Mathlib.Data.List.Basic
import Mathlib.Data.Nat.Find

/-!
# Text read in pieces

Some bytes that begin a text decode to characters that the text begins with. So a text is read
without fault however it is cut into pieces, and what is read of it is enough or all of it.
-/

namespace CnfSolver.Text

/-! ## Cutting a text anywhere -/

/-- The bytes of a character begin it up to the last of them. -/
theorem isUnfinished_take_utf8EncodeChar {c : Char} {n : Nat} (hpos : 0 < n)
    (hlt : n < (String.utf8EncodeChar c).length) :
    isUnfinished ((String.utf8EncodeChar c).take n) = true := by
  have hvalid : c.val.toNat < 0x110000 := by
    rcases c.valid with h | h
    · omega
    · exact h.2
  revert hlt hvalid
  unfold String.utf8EncodeChar
  generalize c.val.toNat = v
  intro hlt hvalid
  simp only at hlt ⊢
  -- one case for each number of bytes
  split at hlt
  · simp at hlt
    omega
  split at hlt
  · next hone htwo =>
    obtain rfl : n = 1 := by simp at hlt; omega
    simp [hone, htwo, isUnfinished, UInt8.le_iff_toNat_le]
    omega
  split at hlt
  · next hone htwo hthree =>
    obtain rfl | rfl : n = 1 ∨ n = 2 := by simp at hlt; omega
    · simp [hone, htwo, hthree, isUnfinished, UInt8.le_iff_toNat_le]
      omega
    · simp [hone, htwo, hthree, isUnfinished, canFollow, isContinuation,
        UInt8.le_iff_toNat_le, ← UInt8.toNat_inj]
      omega
  · next hone htwo hthree =>
    obtain rfl | rfl | rfl : n = 1 ∨ n = 2 ∨ n = 3 := by simp at hlt; omega
    · simp [hone, htwo, hthree, isUnfinished, UInt8.le_iff_toNat_le]
      omega
    · simp [hone, htwo, hthree, isUnfinished, canFollow, isContinuation,
        UInt8.le_iff_toNat_le, ← UInt8.toNat_inj]
      omega
    · simp [hone, htwo, hthree, isUnfinished, canFollow, isContinuation,
        UInt8.le_iff_toNat_le, ← UInt8.toNat_inj]
      omega

/-- Bytes that are cut from a text end behind a character or inside one. -/
theorem exists_take_flatMap (cs : List Char) (n : Nat) :
    ∃ front part, front <+: cs ∧
      (cs.flatMap String.utf8EncodeChar).take n = front.flatMap String.utf8EncodeChar ++ part ∧
      (part = [] ∨ isUnfinished part = true) := by
  induction cs generalizing n with
  | nil => exact ⟨[], [], List.nil_prefix, by simp, .inl rfl⟩
  | cons c cs ih =>
      rw [List.flatMap_cons, List.take_append]
      by_cases hn : n < (String.utf8EncodeChar c).length
      · refine ⟨[], (String.utf8EncodeChar c).take n, List.nil_prefix, ?_, ?_⟩
        · rw [Nat.sub_eq_zero_of_le (Nat.le_of_lt hn), List.take_zero, List.append_nil]
          rfl
        · rcases Nat.eq_zero_or_pos n with rfl | hpos
          · exact .inl rfl
          · exact .inr (isUnfinished_take_utf8EncodeChar hpos hn)
      · obtain ⟨front, part, hfront, htake, hpart⟩ := ih (n - (String.utf8EncodeChar c).length)
        refine ⟨c :: front, part, List.cons_prefix_cons.2 ⟨rfl, hfront⟩, ?_, hpart⟩
        rw [List.take_of_length_le (Nat.le_of_not_lt hn), htake, List.flatMap_cons,
          List.append_assoc]

/-! ## Decoding -/

theorem fromUTF8?_toUTF8 (s : String) : String.fromUTF8? s.toUTF8 = some s :=
  dif_pos s.isValidUTF8

theorem fromUTF8?_eq_some_iff {bytes : ByteArray} {s : String} :
    String.fromUTF8? bytes = some s ↔ s.toUTF8 = bytes := by
  constructor
  · intro h
    unfold String.fromUTF8? at h
    split at h
    · obtain rfl := Option.some.inj h
      rfl
    · exact nomatch h
  · rintro rfl
    exact fromUTF8?_toUTF8 s

theorem decode?_toUTF8 (s : String) : decode? s.toUTF8 = some ⟨s.toList, false⟩ := by
  rw [decode?, fromUTF8?_toUTF8]

/-- What is decoded is encoded by the bytes up to some place. -/
theorem eq_append_of_decode? {bytes : ByteArray} {decoded : Decoded}
    (h : decode? bytes = some decoded) :
    ∃ rest : ByteArray, bytes = decoded.text.utf8Encode ++ rest := by
  unfold decode? at h
  split at h
  · next s hs =>
    obtain rfl := Option.some.inj h
    refine ⟨.empty, ?_⟩
    rw [ByteArray.append_empty, String.utf8Encode_toList, ← fromUTF8?_eq_some_iff.1 hs]
    rfl
  · obtain ⟨n, -, hcut⟩ := List.exists_of_findSome?_eq_some h
    unfold decodeCut? at hcut
    simp only at hcut
    split at hcut
    · obtain ⟨s, hs, rfl⟩ := Option.map_eq_some_iff.1 hcut
      refine ⟨bytes.extract (bytes.size - n) bytes.size, ?_⟩
      have hfront := fromUTF8?_eq_some_iff.1 hs
      simp only [String.utf8Encode_toList]
      rw [← String.toUTF8_eq_toByteArray, hfront, ← ByteArray.extract_eq_extract_append_extract]
      · simp
      · simp
      · simp
    · exact nomatch hcut

theorem length_of_isUnfinished {part : List UInt8} (h : isUnfinished part = true) :
    part.length ∈ [1, 2, 3] := by
  unfold isUnfinished at h
  split at h
  · simp
  · simp
  · simp
  · exact nomatch h

theorem isSome_decodeCut? (front : List Char) {part : List UInt8} (h : isUnfinished part = true) :
    (decodeCut? (front.utf8Encode ++ part.toByteArray) part.length).isSome = true := by
  have hstart : (front.utf8Encode ++ part.toByteArray).size - part.length =
      front.utf8Encode.size := by
    rw [ByteArray.size_append, List.size_toByteArray, Nat.add_sub_cancel]
  have hpart : (front.utf8Encode ++ part.toByteArray).data.toList.drop front.utf8Encode.size =
      part := by
    rw [ByteArray.data_append, Array.toList_append]
    simp [List.drop_left']
  have hfront : String.fromUTF8? front.utf8Encode = some (String.ofList front) :=
    fromUTF8?_eq_some_iff.2 (by simp)
  simp only [decodeCut?, hstart, hpart, h, if_true]
  rw [ByteArray.extract_append_eq_left rfl, hfront]
  rfl

theorem isSome_decode? (front : List Char) {part : List UInt8}
    (h : part = [] ∨ isUnfinished part = true) :
    (decode? (front.utf8Encode ++ part.toByteArray)).isSome = true := by
  unfold decode?
  split
  · rfl
  · next hnone =>
    rcases h with rfl | hpart
    · have hvalid := fromUTF8?_toUTF8 (String.ofList front)
      rw [String.toUTF8_eq_toByteArray, String.toByteArray_ofList] at hvalid
      rw [List.toByteArray_nil, ByteArray.append_empty, hvalid] at hnone
      exact nomatch hnone
    · rw [List.findSome?_isSome_iff]
      exact ⟨part.length, length_of_isUnfinished hpart, isSome_decodeCut? front hpart⟩

theorem toByteArray_extract (bytes : List UInt8) (n : Nat) :
    bytes.toByteArray.extract 0 n = (bytes.take n).toByteArray := by
  apply ByteArray.ext
  rw [ByteArray.data_extract, List.data_toByteArray, List.data_toByteArray]
  simp

theorem exists_decode?_extract (s : String) (n : Nat) :
    ∃ decoded, decode? (s.toUTF8.extract 0 n) = some decoded ∧ decoded.text <+: s.toList := by
  obtain ⟨front, part, -, htake, hpart⟩ := exists_take_flatMap s.toList n
  have hbytes : s.toUTF8.extract 0 n = front.utf8Encode ++ part.toByteArray := by
    rw [String.toUTF8_eq_toByteArray, ← String.utf8Encode_toList, List.utf8Encode,
      toByteArray_extract, htake, List.toByteArray_append]
    rfl
  obtain ⟨decoded, hdecode⟩ := Option.isSome_iff_exists.1 (isSome_decode? front hpart)
  rw [← hbytes] at hdecode
  refine ⟨decoded, hdecode, ?_⟩
  obtain ⟨rest, hrest⟩ := eq_append_of_decode? hdecode
  apply List.isPrefix_of_utf8Encode_append_eq_utf8Encode (rest ++ s.toUTF8.extract n s.toUTF8.size)
  rw [← ByteArray.append_assoc, ← hrest, ByteArray.extract_append_extract,
    Nat.min_eq_left n.zero_le, ByteArray.extract_zero_max_size, String.utf8Encode_toList,
    String.toUTF8_eq_toByteArray]

/-! ## Reading -/

variable {isEnough : List Char → Bool} {bytes : ByteArray} {n : Nat}

/-- What is read of some bytes. Before a piece is read, what is known is decoded and not enough. -/
inductive Reads (isEnough : List Char → Bool) (bytes : ByteArray) : Option (List Char) → Prop
  | enough {n : Nat} {decoded : Decoded}
      (hbefore : ∀ m < n, isLast isEnough (decodePieces? bytes m) = false)
      (hdecode : decodePieces? bytes n = some decoded) (henough : isEnough decoded.text = true) :
      Reads isEnough bytes (some decoded.text)
  | whole {text : List Char} (hmore : ∀ n, isLast isEnough (decodePieces? bytes n) = false)
      (hdecode : decode? bytes = some ⟨text, false⟩) : Reads isEnough bytes (some text)
  | garbled {n : Nat} (hbefore : ∀ m < n, isLast isEnough (decodePieces? bytes m) = false)
      (hdecode : decodePieces? bytes n = none) : Reads isEnough bytes none
  | cut {text : List Char} (hmore : ∀ n, isLast isEnough (decodePieces? bytes n) = false)
      (hdecode : decode? bytes = some ⟨text, true⟩) : Reads isEnough bytes none

theorem decodePieces?_of_size_le (h : bytes.size ≤ n * pieceSize) :
    decodePieces? bytes n = decode? bytes := by
  have hwhole : bytes.extract 0 (n * pieceSize) = bytes := by
    rw [← Nat.max_eq_left h, ByteArray.extract_zero_max_size]
  rw [decodePieces?, hwhole]

theorem decodePieces?_of_lt (h : bytes.size / pieceSize < n) :
    decodePieces? bytes n = decode? bytes := by
  apply decodePieces?_of_size_le
  rw [pieceSize] at *
  omega

theorem isLast_decode? (hmore : ∀ n, isLast isEnough (decodePieces? bytes n) = false) :
    isLast isEnough (decode? bytes) = false := by
  rw [← decodePieces?_of_lt (Nat.lt_succ_self _)]
  exact hmore _

theorem decodePieces?_piecesRead_of_le
    (hmore : ∀ m ≤ bytes.size / pieceSize, isLast isEnough (decodePieces? bytes m) = false) :
    decodePieces? bytes (piecesRead isEnough bytes) = decode? bytes := by
  have hfind : (List.range (bytes.size / pieceSize + 1)).find?
      (fun m => isLast isEnough (decodePieces? bytes m)) = none := by
    rw [List.find?_range_eq_none]
    exact fun m hm => by rw [hmore m (Nat.le_of_lt_succ hm)]; rfl
  simp only [piecesRead, hfind, Option.getD_none]
  exact decodePieces?_of_lt (Nat.lt_succ_self _)

theorem decodePieces?_piecesRead
    (hbefore : ∀ m < n, isLast isEnough (decodePieces? bytes m) = false)
    (hlast : isLast isEnough (decodePieces? bytes n) = true) :
    decodePieces? bytes (piecesRead isEnough bytes) = decodePieces? bytes n := by
  by_cases hn : n ≤ bytes.size / pieceSize
  · have hfind : (List.range (bytes.size / pieceSize + 1)).find?
        (fun m => isLast isEnough (decodePieces? bytes m)) = some n := by
      rw [List.find?_range_eq_some]
      exact ⟨hlast, List.mem_range.2 (Nat.lt_succ_of_le hn),
        fun m hm => by rw [hbefore m hm]; rfl⟩
    simp only [piecesRead, hfind, Option.getD_some]
  · have hlt : bytes.size / pieceSize < n := Nat.lt_of_not_le hn
    rw [decodePieces?_of_lt hlt]
    exact decodePieces?_piecesRead_of_le fun m hm => hbefore m (Nat.lt_of_le_of_lt hm hlt)

theorem Reads.read?_eq {text? : Option (List Char)} (h : Reads isEnough bytes text?) :
    read? isEnough bytes = text? := by
  unfold read?
  cases h with
  | enough hbefore hdecode henough =>
      rw [decodePieces?_piecesRead hbefore (by rw [hdecode]; exact henough), hdecode]
      simp [henough]
  | whole hmore hdecode =>
      rw [decodePieces?_piecesRead_of_le fun m _ => hmore m, hdecode]
      rfl
  | garbled hbefore hdecode =>
      rw [decodePieces?_piecesRead hbefore (by rw [hdecode]; rfl), hdecode]
      rfl
  | @cut text hmore hdecode =>
      have hshort : isEnough text = false := by
        have hlast := isLast_decode? hmore
        rwa [hdecode] at hlast
      rw [decodePieces?_piecesRead_of_le fun m _ => hmore m, hdecode]
      simp [hshort]

theorem exists_reads (isEnough : List Char → Bool) (bytes : ByteArray) :
    ∃ text?, Reads isEnough bytes text? := by
  by_cases h : ∃ n, isLast isEnough (decodePieces? bytes n) = true
  · have hlast := Nat.find_spec h
    have hbefore : ∀ m < Nat.find h, isLast isEnough (decodePieces? bytes m) = false :=
      fun m hm => Bool.eq_false_iff.2 (Nat.find_min h hm)
    cases hdecode : decodePieces? bytes (Nat.find h) with
    | none => exact ⟨_, .garbled hbefore hdecode⟩
    | some decoded =>
        rw [hdecode] at hlast
        exact ⟨_, .enough hbefore hdecode hlast⟩
  · have hmore : ∀ n, isLast isEnough (decodePieces? bytes n) = false :=
      fun n => Bool.eq_false_iff.2 fun hn => h ⟨n, hn⟩
    match hdecode : decode? bytes with
    | none =>
        have hlast := isLast_decode? hmore
        rw [hdecode] at hlast
        exact nomatch hlast
    | some ⟨text, false⟩ => exact ⟨_, .whole hmore hdecode⟩
    | some ⟨text, true⟩ => exact ⟨_, .cut hmore hdecode⟩

theorem reads_read? (isEnough : List Char → Bool) (bytes : ByteArray) :
    Reads isEnough bytes (read? isEnough bytes) := by
  obtain ⟨text?, h⟩ := exists_reads isEnough bytes
  rwa [h.read?_eq]

theorem isPrefix_of_decodePieces? {s : String} {decoded : Decoded}
    (h : decodePieces? s.toUTF8 n = some decoded) : decoded.text <+: s.toList := by
  obtain ⟨decoded', hdecode, hbegins⟩ := exists_decode?_extract s (n * pieceSize)
  obtain rfl := Option.some.inj (h.symm.trans hdecode)
  exact hbegins

theorem decodePieces?_toUTF8_ne_none (s : String) (n : Nat) :
    decodePieces? s.toUTF8 n ≠ none := by
  obtain ⟨decoded, hdecode, -⟩ := exists_decode?_extract s (n * pieceSize)
  rw [decodePieces?, hdecode]
  exact Option.some_ne_none _

/-- A text is read up to where it is enough, or as a whole. -/
theorem exists_read?_toUTF8 (isEnough : List Char → Bool) (s : String) :
    ∃ text, read? isEnough s.toUTF8 = some text ∧ text <+: s.toList ∧
      (isEnough text = true ∨ text = s.toList) := by
  have hreads := reads_read? isEnough s.toUTF8
  generalize read? isEnough s.toUTF8 = text? at hreads ⊢
  cases hreads with
  | enough _ hdecode henough =>
      exact ⟨_, rfl, isPrefix_of_decodePieces? hdecode, .inl henough⟩
  | whole _ hdecode =>
      rw [decode?_toUTF8] at hdecode
      obtain ⟨rfl, -⟩ := Decoded.mk.inj (Option.some.inj hdecode)
      exact ⟨_, rfl, List.prefix_rfl, .inr rfl⟩
  | garbled _ hdecode => exact absurd hdecode (decodePieces?_toUTF8_ne_none s _)
  | cut _ hdecode =>
      rw [decode?_toUTF8] at hdecode
      exact nomatch Option.some.inj hdecode

/-- Bytes that are refused are the bytes of no text. -/
theorem Reads.ne_toUTF8 (h : Reads isEnough bytes none) (s : String) : bytes ≠ s.toUTF8 := by
  rintro rfl
  obtain ⟨text, htext, -⟩ := exists_read?_toUTF8 isEnough s
  rw [h.read?_eq] at htext
  exact nomatch htext

theorem decodePieces?_append {m : Nat} (hm : m * pieceSize ≤ bytes.size) (rest : ByteArray) :
    decodePieces? (bytes ++ rest) m = decodePieces? bytes m := by
  rw [decodePieces?, decodePieces?, ByteArray.extract_append]
  simp [Nat.sub_eq_zero_of_le hm]

/-- If a text of whole pieces is enough, any bytes may stand behind it. -/
theorem exists_read?_toUTF8_append {s : String} (hpieces : s.toUTF8.size = n * pieceSize)
    (henough : isEnough s.toList = true) (rest : ByteArray) :
    ∃ text, read? isEnough (s.toUTF8 ++ rest) = some text ∧ text <+: s.toList ∧
      isEnough text = true := by
  have hsame : ∀ m ≤ n, decodePieces? (s.toUTF8 ++ rest) m = decodePieces? s.toUTF8 m := by
    intro m hm
    apply decodePieces?_append
    rw [hpieces]
    exact Nat.mul_le_mul_right _ hm
  have hlast : isLast isEnough (decodePieces? (s.toUTF8 ++ rest) n) = true := by
    rw [hsame n (Nat.le_refl n), decodePieces?_of_size_le (Nat.le_of_eq hpieces), decode?_toUTF8]
    exact henough
  -- no piece behind the first `n` is read
  have hle {m : Nat} (hbefore : ∀ k < m,
      isLast isEnough (decodePieces? (s.toUTF8 ++ rest) k) = false) : m ≤ n :=
    Nat.le_of_not_lt fun hn => Bool.false_ne_true ((hbefore n hn).symm.trans hlast)
  have hreads := reads_read? isEnough (s.toUTF8 ++ rest)
  generalize read? isEnough (s.toUTF8 ++ rest) = text? at hreads ⊢
  cases hreads with
  | enough hbefore hdecode hmore =>
      rw [hsame _ (hle hbefore)] at hdecode
      exact ⟨_, rfl, isPrefix_of_decodePieces? hdecode, hmore⟩
  | garbled hbefore hdecode =>
      rw [hsame _ (hle hbefore)] at hdecode
      exact absurd hdecode (decodePieces?_toUTF8_ne_none s _)
  | whole hmore _ => exact absurd hlast (Bool.eq_false_iff.1 (hmore n))
  | cut hmore _ => exact absurd hlast (Bool.eq_false_iff.1 (hmore n))

end CnfSolver.Text
