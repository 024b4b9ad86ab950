import ParserKit.Text.Utf8

/-! Texts as bytes. A character is encoded in one to four bytes, of which the first says how many there are and each
    of the others brings six bits (`Encodes`). Bytes are read as the symbols of a text exactly if they are the text's
    encoding (`decode_eq_symbols_iff`), so junk among the symbols means that the bytes are those of no text. -/

namespace ParserKit.Text
variable {c : Char} {n : Nat} {b : UInt8} {bytes w : List UInt8} {text : String}

def bytesOf (cs : List Char) : List UInt8 := cs.flatMap String.utf8EncodeChar

theorem toList_data_toUTF8 (s : String) : s.toUTF8.data.toList = bytesOf s.toList := by
  have hbytes : (String.ofList s.toList).toByteArray = (bytesOf s.toList).toByteArray := String.toByteArray_ofList
  rw [String.toUTF8_eq_toByteArray, ← String.ofList_toList (s := s), hbytes, List.data_toByteArray, String.ofList_toList]

/-! ### Single characters -/

/-- The bytes of a character. The code points of each length are those that no shorter sequence can have. -/
inductive Encodes (c : Char) : List UInt8 → Prop
  | one {a} : c.utf8Size = 1 → a.toNat = c.toNat → Encodes c [a]
  | two {a b x} : c.utf8Size = 2 → 192 ≤ a.toNat → b.toNat = x + 128 → x < 64 →
      c.toNat = (a.toNat - 192) * 64 + x → Encodes c [a, b]
  | three {a b d x y} : c.utf8Size = 3 → 224 ≤ a.toNat → b.toNat = x + 128 → x < 64 → d.toNat = y + 128 → y < 64 →
      c.toNat = ((a.toNat - 224) * 64 + x) * 64 + y → Encodes c [a, b, d]
  | four {a b d e x y z} : c.utf8Size = 4 → 240 ≤ a.toNat → b.toNat = x + 128 → x < 64 → d.toNat = y + 128 → y < 64 →
      e.toNat = z + 128 → z < 64 → c.toNat = (((a.toNat - 240) * 64 + x) * 64 + y) * 64 + z → Encodes c [a, b, d, e]

/-- The least and the greatest code point of each length. -/
theorem utf8Size_iff (c : Char) :
    (c.utf8Size = 1 ↔ c.toNat ≤ 0x7F) ∧ (c.utf8Size = 2 ↔ 0x7F < c.toNat ∧ c.toNat ≤ 0x7FF) ∧
    (c.utf8Size = 3 ↔ 0x7FF < c.toNat ∧ c.toNat ≤ 0xFFFF) ∧ (c.utf8Size = 4 ↔ 0xFFFF < c.toNat) :=
  ⟨Char.utf8Size_eq_one_iff, Char.utf8Size_eq_two_iff, Char.utf8Size_eq_three_iff, Char.utf8Size_eq_four_iff⟩

theorem toNat_le (c : Char) : c.toNat ≤ 0x10FFFF := by
  have hcode : c.toNat = c.val.toNat := rfl
  rcases c.valid with h | h <;> omega

theorem utf8EncodeChar_eq (c : Char) : String.utf8EncodeChar c =
    if c.toNat ≤ 0x7F then [.ofNat c.toNat]
    else if c.toNat ≤ 0x7FF then [.ofNat (c.toNat / 64 % 32 + 192), .ofNat (c.toNat % 64 + 128)]
    else if c.toNat ≤ 0xFFFF then
      [.ofNat (c.toNat / 4096 % 16 + 224), .ofNat (c.toNat / 64 % 64 + 128), .ofNat (c.toNat % 64 + 128)]
    else
      [.ofNat (c.toNat / 262144 % 8 + 240), .ofNat (c.toNat / 4096 % 64 + 128), .ofNat (c.toNat / 64 % 64 + 128),
        .ofNat (c.toNat % 64 + 128)] := rfl

theorem toNat_ofNat_of_lt (h : n < 256) : (UInt8.ofNat n).toNat = n := by
  rw [UInt8.toNat_ofNat', Nat.mod_eq_of_lt h]

theorem encodes_utf8EncodeChar (c : Char) : Encodes c (String.utf8EncodeChar c) := by
  obtain ⟨hone, htwo, hthree, hfour⟩ := utf8Size_iff c
  have hle := toNat_le c
  have hsix : ∀ k, k % 64 < 64 := fun k => Nat.mod_lt k (by decide)
  have hnext : ∀ k, (UInt8.ofNat (k % 64 + 128)).toNat = k % 64 + 128 := by
    intro k
    have := hsix k
    exact toNat_ofNat_of_lt (by omega)
  rw [utf8EncodeChar_eq]
  split
  next h => exact .one (hone.mpr h) (toNat_ofNat_of_lt (by omega))
  split
  next h =>
    have hfirst : (UInt8.ofNat (c.toNat / 64 % 32 + 192)).toNat = c.toNat / 64 + 192 := by
      rw [toNat_ofNat_of_lt (by omega)]
      omega
    exact .two (htwo.mpr ⟨by omega, h⟩) (by omega) (hnext _) (hsix _) (by omega)
  split
  next h =>
    have hfirst : (UInt8.ofNat (c.toNat / 4096 % 16 + 224)).toNat = c.toNat / 4096 + 224 := by
      rw [toNat_ofNat_of_lt (by omega)]
      omega
    exact .three (hthree.mpr ⟨by omega, h⟩) (by omega) (hnext _) (hsix _) (hnext _) (hsix _) (by omega)
  next h =>
    have hfirst : (UInt8.ofNat (c.toNat / 262144 % 8 + 240)).toNat = c.toNat / 262144 + 240 := by
      rw [toNat_ofNat_of_lt (by omega)]
      omega
    exact .four (hfour.mpr (by omega)) (by omega) (hnext _) (hsix _) (hnext _) (hsix _) (hnext _) (hsix _) (by omega)

theorem Encodes.eq_utf8EncodeChar (h : Encodes c w) : w = String.utf8EncodeChar c := by
  obtain ⟨hone, htwo, hthree, hfour⟩ := utf8Size_iff c
  have hle := toNat_le c
  have hbyte : ∀ {a : UInt8} {k : Nat}, a.toNat = k → a = .ofNat k := by
    rintro a _ rfl
    rw [UInt8.ofNat_toNat]
  rw [utf8EncodeChar_eq]
  cases h with
  | one hsize ha => rw [if_pos (hone.mp hsize), hbyte ha]
  | two hsize ha hb hx hcode =>
    have hrange := htwo.mp hsize
    rw [if_neg (by omega), if_pos hrange.2]
    congr 2
    all_goals exact hbyte (by omega)
  | three hsize ha hb hx hd hy hcode =>
    have hrange := hthree.mp hsize
    rw [if_neg (by omega), if_neg (by omega), if_pos hrange.2]
    congr 3
    all_goals exact hbyte (by omega)
  | four hsize ha hb hx hd hy he hz hcode =>
    have hrange := hfour.mp hsize
    rw [if_neg (by omega), if_neg (by omega), if_neg (by omega)]
    congr 4
    all_goals exact hbyte (by omega)

/-! ### Reading one character -/

theorem scalar?_eq_some_iff {code length : Nat} :
    scalar? code length = some c ↔ c.toNat = code ∧ c.utf8Size = length := by
  by_cases h : code.isValidChar
  · have hcode : (Char.ofNatAux code h).toNat = code := UInt32.toNat_ofNatLT ..
    rw [scalar?, dif_pos h]
    generalize Char.ofNatAux code h = d at hcode ⊢
    rw [Option.ite_none_right_eq_some, Option.some.injEq]
    constructor
    · rintro ⟨hlength, rfl⟩
      exact ⟨hcode, hlength⟩
    · rintro ⟨rfl, hlength⟩
      obtain rfl : d = c := Char.ext (UInt32.toNat_inj.mp hcode)
      exact ⟨hlength, rfl⟩
  · rw [scalar?, dif_neg h]
    constructor
    · intro hnone
      cases hnone
    · rintro ⟨rfl, -⟩
      exact absurd c.valid h

theorem continuation?_eq_some_iff : continuation? b = some n ↔ b.toNat = n + 128 ∧ n < 64 := by
  simp only [continuation?, Bool.and_eq_true, decide_eq_true_eq, UInt8.le_iff_toNat_le, Option.ite_none_right_eq_some,
    Option.some.injEq]
  simp
  omega

theorem Encodes.decodeChar?_append (h : Encodes c w) (rest : List UInt8) :
    decodeChar? (w ++ rest) = some (c, c.utf8Size) := by
  obtain ⟨hone, htwo, hthree, hfour⟩ := utf8Size_iff c
  have hle := toNat_le c
  cases h with
  | one hsize ha =>
    have hrange := hone.mp hsize
    have hscalar := scalar?_eq_some_iff.mpr ⟨ha.symm, hsize⟩
    simp only [List.cons_append, decodeChar?, UInt8.lt_iff_toNat_lt]
    rw [if_pos (by simp; omega), hscalar, hsize]
    rfl
  | two hsize ha hb hx hcode =>
    have hrange := htwo.mp hsize
    have hscalar := scalar?_eq_some_iff.mpr ⟨hcode, hsize⟩
    simp only [List.cons_append, decodeChar?, UInt8.lt_iff_toNat_lt, UInt8.le_iff_toNat_le]
    rw [if_neg (by simp; omega), if_pos (by simp; omega)]
    simp [continuation?_eq_some_iff.mpr ⟨hb, hx⟩, hscalar, hsize]
  | three hsize ha hb hx hd hy hcode =>
    have hrange := hthree.mp hsize
    have hscalar := scalar?_eq_some_iff.mpr ⟨hcode, hsize⟩
    simp only [List.cons_append, decodeChar?, UInt8.lt_iff_toNat_lt, UInt8.le_iff_toNat_le]
    rw [if_neg (by simp; omega), if_neg (by simp; omega), if_pos (by simp; omega)]
    simp [continuation?_eq_some_iff.mpr ⟨hb, hx⟩, continuation?_eq_some_iff.mpr ⟨hd, hy⟩, hscalar, hsize]
  | four hsize ha hb hx hd hy he hz hcode =>
    have hrange := hfour.mp hsize
    have hscalar := scalar?_eq_some_iff.mpr ⟨hcode, hsize⟩
    simp only [List.cons_append, decodeChar?, UInt8.lt_iff_toNat_lt, UInt8.le_iff_toNat_le]
    rw [if_neg (by simp; omega), if_neg (by simp; omega), if_neg (by simp; omega), if_pos (by simp; omega)]
    simp [continuation?_eq_some_iff.mpr ⟨hb, hx⟩, continuation?_eq_some_iff.mpr ⟨hd, hy⟩,
      continuation?_eq_some_iff.mpr ⟨he, hz⟩, hscalar, hsize]

/-- A character is read only where its bytes are. -/
theorem exists_encodes (h : decodeChar? bytes = some (c, n)) :
    ∃ w rest, bytes = w ++ rest ∧ Encodes c w ∧ n = c.utf8Size := by
  unfold decodeChar? at h
  split at h
  next => cases h
  next a rest =>
    simp only [UInt8.lt_iff_toNat_lt, UInt8.le_iff_toNat_le, Bool.and_eq_true, decide_eq_true_eq,
      Option.bind_eq_bind] at h
    -- one case for each length, and a byte that starts no character
    split at h
    next ha =>
      simp only [Option.map_eq_some_iff, Prod.mk.injEq, scalar?_eq_some_iff] at h
      obtain ⟨c, ⟨hcode, hsize⟩, rfl, rfl⟩ := h
      exact ⟨[a], rest, rfl, .one hsize hcode.symm, hsize.symm⟩
    split at h
    next ha =>
      have hfirst : 192 ≤ a.toNat := Nat.le_trans (by decide) ha.1
      split at h
      next b rest' =>
        simp only [Option.bind_eq_some_iff, Option.map_eq_some_iff, Prod.mk.injEq, scalar?_eq_some_iff,
          continuation?_eq_some_iff] at h
        obtain ⟨x, ⟨hb, hx⟩, c, ⟨hcode, hsize⟩, rfl, rfl⟩ := h
        exact ⟨[a, b], rest', rfl, .two hsize hfirst hb hx hcode, hsize.symm⟩
      next => cases h
    split at h
    next ha =>
      have hfirst : 224 ≤ a.toNat := ha.1
      split at h
      next b d rest' =>
        simp only [Option.bind_eq_some_iff, Option.map_eq_some_iff, Prod.mk.injEq, scalar?_eq_some_iff,
          continuation?_eq_some_iff] at h
        obtain ⟨x, ⟨hb, hx⟩, y, ⟨hd, hy⟩, c, ⟨hcode, hsize⟩, rfl, rfl⟩ := h
        exact ⟨[a, b, d], rest', rfl, .three hsize hfirst hb hx hd hy hcode, hsize.symm⟩
      next => cases h
    split at h
    next ha =>
      have hfirst : 240 ≤ a.toNat := ha.1
      split at h
      next b d e rest' =>
        simp only [Option.bind_eq_some_iff, Option.map_eq_some_iff, Prod.mk.injEq, scalar?_eq_some_iff,
          continuation?_eq_some_iff] at h
        obtain ⟨x, ⟨hb, hx⟩, y, ⟨hd, hy⟩, z, ⟨he, hz⟩, c, ⟨hcode, hsize⟩, rfl, rfl⟩ := h
        exact ⟨[a, b, d, e], rest', rfl, .four hsize hfirst hb hx hd hy he hz hcode, hsize.symm⟩
      next => cases h
    next => cases h

/-! ### Whole texts -/

theorem decode_nil : decode [] = [] := by rw [decode]

theorem Encodes.decode_append (h : Encodes c w) (rest : List UInt8) : decode (w ++ rest) = .char c :: decode rest := by
  have hlength : w.length = c.utf8Size := by rw [h.eq_utf8EncodeChar, String.length_utf8EncodeChar]
  have hchar := h.decodeChar?_append rest
  rcases w with _ | ⟨a, w⟩
  · have := c.utf8Size_pos
    rw [List.length_nil] at hlength
    omega
  · rw [List.cons_append] at hchar ⊢
    rw [decode, hchar, ← hlength]
    simp

theorem decode_bytesOf (cs : List Char) : decode (bytesOf cs) = cs.map .char := by
  induction cs with
  | nil => exact decode_nil
  | cons c cs ih =>
    rw [bytesOf, List.flatMap_cons, (encodes_utf8EncodeChar c).decode_append, List.map_cons]
    exact congrArg _ ih

theorem eq_bytesOf_of_decode {cs : List Char} (h : decode bytes = cs.map .char) : bytes = bytesOf cs := by
  induction cs generalizing bytes with
  | nil =>
    rcases bytes with _ | ⟨a, bytes⟩
    · rfl
    · rw [decode] at h
      split at h <;> cases h
  | cons c cs ih =>
    rcases bytes with _ | ⟨a, bytes⟩
    · rw [decode_nil] at h
      cases h
    · cases hchar : decodeChar? (a :: bytes) with
      | none =>
        rw [decode, hchar] at h
        cases h
      | some read =>
        obtain ⟨w, rest, hbytes, hencodes, -⟩ := exists_encodes hchar
        rw [hbytes, hencodes.decode_append] at h
        obtain ⟨hc, hrest⟩ := List.cons.inj h
        cases hc
        rw [hbytes, ih hrest, hencodes.eq_utf8EncodeChar, bytesOf, bytesOf, List.flatMap_cons]

theorem spell?_chars (cs : List Char) : spell? (cs.map .char) = some (String.ofList cs) := by
  have hmap : (cs.map Symbol.char).mapM Symbol.char? = some cs := by
    induction cs with
    | nil => rfl
    | cons c cs ih => simp [ih, Symbol.char?]
  rw [spell?, hmap, Option.map_some]

theorem eq_map_char_of_mapM {stream : List Symbol} {cs : List Char} (h : stream.mapM Symbol.char? = some cs) :
    stream = cs.map .char := by
  induction stream generalizing cs with
  | nil =>
    cases h
    rfl
  | cons s stream ih =>
    simp only [List.mapM_cons, Option.bind_eq_bind, Option.pure_def, Option.bind_eq_some_iff, Option.some.injEq] at h
    obtain ⟨c, hc, cs', hcs', rfl⟩ := h
    cases s with
    | char d =>
      cases hc
      rw [List.map_cons, ih hcs']
    | junk byte => cases hc

theorem spell?_eq_some_iff {stream : List Symbol} : spell? stream = some text ↔ stream = symbols text := by
  constructor
  · intro h
    obtain ⟨cs, hcs, rfl⟩ := Option.map_eq_some_iff.mp h
    rw [symbols, String.toList_ofList]
    exact eq_map_char_of_mapM hcs
  · rintro rfl
    rw [symbols, spell?_chars, String.ofList_toList]

/-- The bytes are read as a text exactly if they are its encoding. -/
theorem decode_eq_symbols_iff : decode bytes = symbols text ↔ bytes = text.toUTF8.data.toList := by
  rw [toList_data_toUTF8, symbols]
  constructor
  · exact eq_bytesOf_of_decode
  · rintro rfl
    exact decode_bytesOf text.toList

end ParserKit.Text
