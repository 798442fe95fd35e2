import ModelFinder.Proofs.Words

/-!
# Texts that are read byte by byte

A line in Latin-1 has a character for every byte.  If it really is a text in UTF-8, another text is
read instead, in which every byte of a character is a character of its own (`byteWise`).

The two texts have the same characters above the ASCII range and outside the white space only if
there are none (`isAscii_of_high_byteWise_eq`).  The first byte of such a character always counts,
so the other text has at least as many of them; if it has as many, then each character would have to
be its own first byte, and the bytes after it blanks.  The one character of which the former is true
is written with a second byte that is no blank.
-/

namespace ModelFinder

variable {c : Char} {text : List Char} {bytes : List UInt8}

/-- The bytes of a text in UTF-8. -/
def utf8 (text : List Char) : List UInt8 := text.flatMap String.utf8EncodeChar

/-- The character of the same code. -/
def charOf (b : UInt8) : Char := Char.ofNat b.toNat

/-- The text that is read if each byte is taken as a character. -/
def byteWise (text : List Char) : List Char := (utf8 text).map charOf

/-- Whether the character has the property White_Space of Unicode. -/
def isWhite (c : Char) : Bool :=
  let n := c.toNat
  (9 ≤ n && n ≤ 13) || n == 0x20 || n == 0x85 || n == 0xA0 || n == 0x1680 ||
    (0x2000 ≤ n && n ≤ 0x200A) || n == 0x2028 || n == 0x2029 || n == 0x202F || n == 0x205F ||
    n == 0x3000

/-- The words of a text: the longest runs without white space. -/
def textWords (text : List Char) : List (List Char) :=
  (text.splitOnP isWhite).filter (!·.isEmpty)

/-- All characters are in the ASCII range. -/
def IsAscii (text : List Char) : Prop := ∀ c ∈ text, c.toNat < 128

instance : Decidable (IsAscii text) := List.decidableBAll ..

/-- Whether the character is above the ASCII range and outside the white space. -/
def isHigh (c : Char) : Bool := decide (128 ≤ c.toNat) && !isWhite c

/-- The characters above the ASCII range and outside the white space. -/
def high (text : List Char) : List Char := text.filter isHigh

/-! ### Bytes as characters -/

theorem toList_toUTF8 (text : String) : text.toUTF8.data.toList = utf8 text.toList := by
  have hbytes : text.toByteArray = (utf8 text.toList).toByteArray := by
    rw [← String.ofList_toList (s := text), String.toByteArray_ofList, String.toList_ofList]
    rfl
  rw [String.toUTF8_eq_toByteArray, hbytes]
  exact List.toList_data_toByteArray

@[simp] theorem utf8_cons : utf8 (c :: text) = String.utf8EncodeChar c ++ utf8 text := rfl

theorem byteWise_cons :
    byteWise (c :: text) = (String.utf8EncodeChar c).map charOf ++ byteWise text := by
  rw [byteWise, utf8_cons, List.map_append]
  rfl

theorem toNat_charOf (b : UInt8) : (charOf b).toNat = b.toNat := by
  have hvalid : b.toNat.isValidChar := .inl (by have := b.toNat_lt; omega)
  rw [charOf, Char.ofNat, dif_pos hvalid]
  rfl

theorem charOf_inj {b b' : UInt8} (h : charOf b = charOf b') : b = b' := by
  rw [← UInt8.toNat_inj, ← toNat_charOf, ← toNat_charOf, h]

theorem isWhite_charOf (b : UInt8) : isWhite (charOf b) = Latin1.isBlank b := by
  have hb := b.toNat_lt
  rw [Bool.eq_iff_iff]
  simp only [isWhite, toNat_charOf, Latin1.isBlank, Bool.or_eq_true, Bool.and_eq_true,
    decide_eq_true_eq, beq_iff_eq, UInt8.le_iff_toNat_le, ← UInt8.toNat_inj, UInt8.reduceToNat]
  omega

theorem utf8EncodeChar_of_lt (hc : c.toNat < 128) :
    String.utf8EncodeChar c = [UInt8.ofNat c.toNat] := by
  rw [String.utf8EncodeChar]
  exact if_pos (Nat.le_of_lt_succ hc)

theorem charOf_ofNat (hc : c.toNat < 128) : charOf (UInt8.ofNat c.toNat) = c := by
  rw [charOf, UInt8.toNat_ofNat_of_lt' (by simp only [UInt8.size]; omega), Char.ofNat_toNat]

/-- An ASCII text is read as it is. -/
theorem byteWise_eq_self (h : IsAscii text) : byteWise text = text := by
  induction text with
  | nil => rfl
  | cons c text ih =>
      obtain ⟨hc, h⟩ := List.forall_mem_cons.mp h
      rw [byteWise_cons, ih h, utf8EncodeChar_of_lt hc, List.map_singleton, charOf_ofNat hc,
        List.singleton_append]

/-- How a character above the ASCII range is written: its first byte is no blank, and if it happens
to have the code of the character, there is a second byte, which is no blank either. -/
theorem exists_utf8EncodeChar (hc : 128 ≤ c.toNat) :
    ∃ b bs, String.utf8EncodeChar c = b :: bs ∧ 192 ≤ b.toNat ∧
      (b.toNat = c.toNat → ∃ x ∈ bs, x.toNat = 131) := by
  have hvalid : c.toNat < 0xD800 ∨ 0xDFFF < c.toNat ∧ c.toNat < 0x110000 := c.valid
  have hval : c.val.toNat = c.toNat := rfl
  unfold String.utf8EncodeChar
  dsimp only
  rw [hval, if_neg (by omega)]
  split
  next hle =>
    have hlead : c.toNat / 64 % 32 = c.toNat / 64 := Nat.mod_eq_of_lt (by omega)
    refine ⟨_, _, rfl, ?_, fun h => ⟨_, List.mem_singleton_self _, ?_⟩⟩
    · rw [UInt8.toNat_ofNat', hlead]
      omega
    · rw [UInt8.toNat_ofNat', hlead, Nat.mod_eq_of_lt (by omega)] at h
      rw [UInt8.toNat_ofNat']
      omega
  next hlt =>
    have hbyte (n : Nat) : (UInt8.ofNat n).toNat ≠ c.toNat := by
      rw [UInt8.toNat_ofNat']
      omega
    split
    all_goals refine ⟨_, _, rfl, ?_, fun h => absurd h (hbyte _)⟩
    all_goals rw [UInt8.toNat_ofNat']
    all_goals omega

theorem le_of_mem_utf8EncodeChar {b : UInt8} (hc : 128 ≤ c.toNat)
    (hb : b ∈ String.utf8EncodeChar c) : 128 ≤ b.toNat := by
  have hval : c.val.toNat = c.toNat := rfl
  unfold String.utf8EncodeChar at hb
  dsimp only at hb
  rw [hval, if_neg (by omega)] at hb
  split at hb
  case' isFalse => split at hb
  all_goals
    simp only [List.mem_cons, List.not_mem_nil, or_false, ← UInt8.toNat_inj,
      UInt8.toNat_ofNat'] at hb
    omega

theorem utf8_map_charOf (h : ∀ b ∈ bytes, b.toNat < 128) : utf8 (bytes.map charOf) = bytes := by
  induction bytes with
  | nil => rfl
  | cons b bytes ih =>
      obtain ⟨hb, h⟩ := List.forall_mem_cons.mp h
      rw [List.map_cons, utf8_cons, ih h, utf8EncodeChar_of_lt (toNat_charOf b ▸ hb), toNat_charOf,
        UInt8.ofNat_toNat, List.singleton_append]

/-- Only ASCII texts have ASCII bytes. -/
theorem isAscii_of_utf8 (h : ∀ b ∈ utf8 text, b.toNat < 128) : IsAscii text := by
  intro c hc
  refine Nat.lt_of_not_le fun hle => ?_
  obtain ⟨b, bs, hbytes, hb, -⟩ := exists_utf8EncodeChar hle
  have hmem : b ∈ utf8 text := List.mem_flatMap.mpr ⟨c, hc, hbytes ▸ List.mem_cons_self⟩
  have hlt := h b hmem
  omega

/-! ### Characters above the ASCII range -/

theorem high_append (xs ys : List Char) : high (xs ++ ys) = high xs ++ high ys :=
  List.filter_append ..

theorem high_cons_of_pos (hc : isHigh c = true) : high (c :: text) = c :: high text :=
  List.filter_cons_of_pos hc

theorem high_cons_of_neg (hc : isHigh c = false) : high (c :: text) = high text :=
  List.filter_cons_of_neg (by simp [hc])

theorem isHigh_eq_false (hc : c.toNat < 128) : isHigh c = false := by
  rw [isHigh, decide_eq_false (Nat.not_le.mpr hc), Bool.false_and]

theorem high_eq_nil (h : IsAscii text) : high text = [] :=
  List.filter_eq_nil_iff.mpr fun c hc => by simp [isHigh_eq_false (h c hc)]

theorem isHigh_charOf {b : UInt8} (hb : 128 ≤ b.toNat) (h₁ : b.toNat ≠ 133) (h₂ : b.toNat ≠ 160) :
    isHigh (charOf b) = true := by
  rw [isHigh, toNat_charOf, isWhite_charOf]
  simp only [Latin1.isBlank, Bool.and_eq_true, Bool.not_eq_true', Bool.or_eq_false_iff,
    Bool.and_eq_false_iff, decide_eq_true_eq, decide_eq_false_iff_not, beq_eq_false_iff_ne,
    UInt8.le_iff_toNat_le, ne_eq, ← UInt8.toNat_inj, UInt8.reduceToNat]
  omega

theorem high_byteWise_cons_of_lt (hc : c.toNat < 128) :
    high (byteWise (c :: text)) = high (byteWise text) := by
  rw [byteWise_cons, utf8EncodeChar_of_lt hc, List.map_singleton, charOf_ofNat hc,
    List.singleton_append, high_cons_of_neg (isHigh_eq_false hc)]

/-- The first byte of a character above the ASCII range counts, and a further one does if the first
one has the code of the character. -/
theorem exists_high_byteWise_cons (hc : 128 ≤ c.toNat) (text : List Char) :
    ∃ d ds, high (byteWise (c :: text)) = d :: (ds ++ high (byteWise text)) ∧
      (d = c → ds ≠ []) := by
  obtain ⟨b, bs, hbytes, hb, hsecond⟩ := exists_utf8EncodeChar hc
  refine ⟨charOf b, high (bs.map charOf), ?_, fun heq => ?_⟩
  · have hcounts : isHigh (charOf b) = true := isHigh_charOf (by omega) (by omega) (by omega)
    rw [byteWise_cons, hbytes, List.map_cons, List.cons_append, high,
      List.filter_cons_of_pos hcounts, List.filter_append]
    rfl
  · obtain ⟨x, hx, hcode⟩ := hsecond (by rw [← heq, toNat_charOf])
    exact List.ne_nil_of_mem (List.mem_filter.mpr
      ⟨List.mem_map_of_mem hx, isHigh_charOf (by omega) (by omega) (by omega)⟩)

theorem length_high_le (text : List Char) :
    (high text).length ≤ (high (byteWise text)).length := by
  induction text with
  | nil => exact Nat.le_refl 0
  | cons c text ih =>
      by_cases hc : c.toNat < 128
      · rw [high_cons_of_neg (isHigh_eq_false hc), high_byteWise_cons_of_lt hc]
        exact ih
      · obtain ⟨d, ds, heq, -⟩ := exists_high_byteWise_cons (Nat.not_lt.mp hc) text
        rw [heq, List.length_cons, List.length_append]
        cases hhigh : isHigh c with
        | true =>
            rw [high_cons_of_pos hhigh, List.length_cons]
            omega
        | false =>
            rw [high_cons_of_neg hhigh]
            omega

/-- **Only an ASCII text is read as it is.** -/
theorem isAscii_of_high_byteWise_eq (h : high (byteWise text) = high text) :
    IsAscii text := by
  induction text with
  | nil => exact fun c hc => absurd hc List.not_mem_nil
  | cons c text ih =>
      by_cases hc : c.toNat < 128
      · rw [high_cons_of_neg (isHigh_eq_false hc), high_byteWise_cons_of_lt hc] at h
        exact List.forall_mem_cons.mpr ⟨hc, ih h⟩
      · exfalso
        obtain ⟨d, ds, heq, hsecond⟩ := exists_high_byteWise_cons (Nat.not_lt.mp hc) text
        have hle := length_high_le text
        rw [heq] at h
        cases hhigh : isHigh c with
        | true =>
            rw [high_cons_of_pos hhigh] at h
            obtain ⟨hd, htail⟩ := List.cons.inj h
            have hlength := congrArg List.length htail
            have hpos := List.length_pos_iff.mpr (hsecond hd)
            rw [List.length_append] at hlength
            omega
        | false =>
            have hlength := congrArg List.length h
            rw [high_cons_of_neg hhigh, List.length_cons, List.length_append] at hlength
            omega

/-! ### Lines -/

/-- A run without the separator belongs to the first piece. -/
theorem splitOn_append {α : Type} [DecidableEq α] {a : α} {xs : List α} (hxs : a ∉ xs)
    (ys : List α) : (xs ++ ys).splitOn a = (ys.splitOn a).modifyHead (xs ++ ·) := by
  induction xs with
  | nil => cases hsplit : ys.splitOn a <;> simp [hsplit]
  | cons x xs ih =>
      rw [List.mem_cons, not_or] at hxs
      obtain ⟨hx, hxs⟩ := hxs
      rw [List.cons_append, List.splitOn_cons_eq_if_modifyHead, if_neg (by simp [Ne.symm hx]),
        ih hxs, List.modifyHead_modifyHead]
      rfl

theorem lineFeed_not_mem_utf8EncodeChar (hc : c ≠ '\n') : 10 ∉ String.utf8EncodeChar c := by
  intro hmem
  by_cases hlt : c.toNat < 128
  · rw [utf8EncodeChar_of_lt hlt, List.mem_singleton] at hmem
    refine hc ?_
    rw [← charOf_ofNat hlt, ← hmem]
    rfl
  · exact absurd (le_of_mem_utf8EncodeChar (Nat.not_lt.mp hlt) hmem) (by decide)

/-- The lines of a text are the lines of its bytes. -/
theorem splitOn_utf8 (text : List Char) :
    (utf8 text).splitOn 10 = (text.splitOn '\n').map utf8 := by
  induction text with
  | nil => rfl
  | cons c text ih =>
      rw [utf8_cons, List.splitOn_cons_eq_if_modifyHead]
      by_cases hc : c = '\n'
      · subst hc
        have hbytes : String.utf8EncodeChar '\n' = [10] := rfl
        rw [hbytes, List.singleton_append, List.splitOn_cons_eq_if_modifyHead, ih]
        rfl
      · rw [splitOn_append (lineFeed_not_mem_utf8EncodeChar hc), ih,
          if_neg (by simp [hc])]
        cases text.splitOn '\n' with
        | nil => rfl
        | cons line lines => rfl

/-! ### Words -/

theorem splitOnP_map {α β : Type} {p : β → Bool} (f : α → β) (xs : List α) :
    (xs.map f).splitOnP p = (xs.splitOnP (p ∘ f)).map (·.map f) := by
  induction xs with
  | nil => rfl
  | cons x xs ih =>
      rw [List.map_cons, List.splitOnP_cons_eq_if_modifyHead, List.splitOnP_cons_eq_if_modifyHead,
        ih]
      cases hp : p (f x) with
      | true => simp [hp]
      | false => cases xs.splitOnP (p ∘ f) <;> simp [hp]

theorem flatten_splitOnP {α : Type} {p : α → Bool} (xs : List α) :
    (xs.splitOnP p).flatten = xs.filter (!p ·) := by
  induction xs with
  | nil => rfl
  | cons x xs ih =>
      rw [List.splitOnP_cons_eq_if_modifyHead]
      cases hp : p x with
      | true => simpa [hp] using ih
      | false =>
          cases hsplit : xs.splitOnP p with
          | nil => exact absurd hsplit (List.splitOnP_ne_nil p xs)
          | cons y ys =>
              rw [hsplit] at ih
              simpa [hp] using ih

/-- The words of bytes that are taken as characters. -/
theorem textWords_map_charOf (bytes : List UInt8) :
    textWords (bytes.map charOf) = (Latin1.words bytes).map (·.map charOf) := by
  have hwhite : isWhite ∘ charOf = Latin1.isBlank := funext isWhite_charOf
  rw [textWords, splitOnP_map, hwhite, Latin1.words_eq, wordsBy, List.filter_map]
  simp [Function.comp_def]

theorem high_flatten_textWords (text : List Char) : high (textWords text).flatten = high text := by
  rw [textWords, List.flatten_filter_not_isEmpty, flatten_splitOnP, high, List.filter_filter]
  refine List.filter_congr fun c _ => ?_
  rw [isHigh]
  cases isWhite c <;> simp

end ModelFinder
