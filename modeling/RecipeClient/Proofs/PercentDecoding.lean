import RecipeClient.Text.Percent

/-!
# Percent-encoding can be undone

Encoding works byte by byte, so decoding is taken apart byte by byte too: each written byte gives
that byte back, whatever follows it. The bytes of a text are its UTF-8 form, from which the text
itself is recovered.

- `decode?_encode`: an encoded text decodes to the text
- `isEncodedChar_of_mem_encode`: the alphabet of encoded texts
- `decode?_eq_self_iff`: the texts that decode to themselves
-/

namespace RecipeClient.Text.Percent

/-! ## The text behind an encoded text -/

/-- The text that a percent-encoded text stands for, if its bytes are UTF-8. -/
def decode? (cs : List Char) : Option String :=
  (decodeBytes cs).bind fun bytes => String.fromUTF8? bytes.toByteArray

/-- Whether a character occurs in encoded texts. -/
def isEncodedChar (c : Char) : Bool := isUnreserved c || c == '%'

/-! ## Hexadecimal digits -/

/-- The digits of a byte are the sixteen upper-case ones. -/
private theorem upperHexDigit_cases {n : Nat} (h : n < 16) :
    hexValue? (upperHexDigit n) = some n ∧ isUnreserved (upperHexDigit n) = true := by
  have all : ∀ n < 16, hexValue? (upperHexDigit n) = some n ∧
      isUnreserved (upperHexDigit n) = true := by decide
  exact all n h

theorem hexValue?_upperHexDigit {n : Nat} (h : n < 16) :
    hexValue? (upperHexDigit n) = some n :=
  (upperHexDigit_cases h).1

theorem isUnreserved_upperHexDigit {n : Nat} (h : n < 16) :
    isUnreserved (upperHexDigit n) = true :=
  (upperHexDigit_cases h).2

/-! ## One byte -/

private theorem ne_percent_of_isUnreserved {c : Char} (h : isUnreserved c = true) : c ≠ '%' := by
  rintro rfl
  exact absurd h (by decide)

/-- An ASCII character is its own single byte. -/
private theorem utf8EncodeChar_ofNat {b : UInt8} (h : b < 128) :
    String.utf8EncodeChar (Char.ofNat b.toNat) = [b] := by
  have hb : b.toNat < 128 := h
  have hval : (Char.ofNat b.toNat).val.toNat = b.toNat := by
    have hvalid : b.toNat.isValidChar := Or.inl (by omega)
    rw [Char.ofNat, dif_pos hvalid]
    rfl
  unfold String.utf8EncodeChar
  simp only [hval]
  rw [if_pos (by omega)]
  simp

theorem decodeBytes_cons_of_ne {c : Char} (h : c ≠ '%') (rest : List Char) :
    decodeBytes (c :: rest) = (decodeBytes rest).map (String.utf8EncodeChar c ++ ·) := by
  rw [decodeBytes.eq_def]
  split
  · simp_all
  · simp_all
  · rename_i heq
    obtain ⟨rfl, rfl⟩ := List.cons.inj heq
    simp only [beq_iff_eq, h, if_false]
    cases decodeBytes rest <;> rfl

/-- A written byte gives the byte back, whatever follows it. -/
theorem decodeBytes_encodeByte_append (b : UInt8) (rest : List Char) :
    decodeBytes (encodeByte isUnreserved b ++ rest) = (decodeBytes rest).map (b :: ·) := by
  have hlt : b.toNat < 256 := b.toNat_lt
  simp only [encodeByte]
  split
  · -- the byte stands for itself
    rename_i h
    simp only [Bool.and_eq_true, decide_eq_true_eq] at h
    rw [List.singleton_append, decodeBytes_cons_of_ne (ne_percent_of_isUnreserved h.2),
      utf8EncodeChar_ofNat h.1]
    rfl
  · -- the byte is escaped
    have hhigh : hexValue? (upperHexDigit (b.toNat / 16)) = some (b.toNat / 16) :=
      hexValue?_upperHexDigit (by omega)
    have hlow : hexValue? (upperHexDigit (b.toNat % 16)) = some (b.toNat % 16) :=
      hexValue?_upperHexDigit (by omega)
    have hbyte : UInt8.ofNat (16 * (b.toNat / 16) + b.toNat % 16) = b := by
      rw [Nat.div_add_mod]
      simp
    simp only [escaped, List.cons_append, List.nil_append, decodeBytes, hhigh, hlow,
      Option.bind_eq_bind, Option.bind_some, hbyte]
    cases decodeBytes rest <;> rfl

/-! ## Whole texts -/

theorem decodeBytes_encode (cs : List Char) : decodeBytes (encode cs) = some (utf8 cs) := by
  have bytes : ∀ bs : List UInt8,
      decodeBytes (bs.flatMap (encodeByte isUnreserved)) = some bs := by
    -- the bytes are decoded one by one, from the front
    intro bs
    induction bs with
    | nil => rfl
    | cons b bs ih => rw [List.flatMap_cons, decodeBytes_encodeByte_append, ih]; rfl
  exact bytes (utf8 cs)

/-- The UTF-8 bytes of a text are the bytes that Lean keeps of it. -/
theorem fromUTF8?_utf8 (s : String) : String.fromUTF8? (utf8 s.toList).toByteArray = some s := by
  -- the bytes of a text are those that it is kept in
  have hbytes : (utf8 s.toList).toByteArray = s.toByteArray := by
    have h := String.toByteArray_ofList (l := s.toList)
    rw [String.ofList_toList] at h
    rw [h]
    rfl
  rw [hbytes]
  unfold String.fromUTF8?
  rw [dif_pos s.isValidUTF8]
  rfl

/-- An encoded text decodes to the text. -/
theorem decode?_encode (s : String) : decode? (encode s.toList) = some s := by
  rw [decode?, decodeBytes_encode]
  exact fromUTF8?_utf8 s

/-! ## Texts that are not encoded -/

theorem utf8_cons (c : Char) (cs : List Char) :
    utf8 (c :: cs) = String.utf8EncodeChar c ++ utf8 cs := rfl

theorem length_utf8EncodeChar_pos (c : Char) : 0 < (String.utf8EncodeChar c).length := by
  rw [String.length_utf8EncodeChar]
  exact c.utf8Size_pos

/-- An escape takes three characters for one byte, so decoding never gives more bytes than there
were, and fewer where there is an escape. -/
theorem length_decodeBytes_le {cs : List Char} {bytes : List UInt8}
    (h : decodeBytes cs = some bytes) :
    bytes.length ≤ (utf8 cs).length ∧ ('%' ∈ cs → bytes.length < (utf8 cs).length) := by
  induction cs using decodeBytes.induct generalizing bytes with
  | case1 =>
    obtain rfl := Option.some.inj h
    simp
  | case2 a b cs ih =>
    simp only [decodeBytes, Option.bind_eq_bind, Option.bind_eq_some_iff, Option.pure_def] at h
    obtain ⟨high, -, low, -, behind, hbehind, h⟩ := h
    obtain rfl := Option.some.inj h
    obtain ⟨hle, -⟩ := ih hbehind
    have ha := length_utf8EncodeChar_pos a
    have hb := length_utf8EncodeChar_pos b
    simp only [utf8_cons, List.length_append, List.length_cons]
    omega
  | case3 c cs _ hc ih => simp_all [decodeBytes]
  | case4 c cs _ hc ih =>
    have hne : c ≠ '%' := by simpa using hc
    rw [decodeBytes_cons_of_ne hne] at h
    obtain ⟨behind, hbehind, rfl⟩ := Option.map_eq_some_iff.mp h
    obtain ⟨hle, hlt⟩ := ih hbehind
    simp only [utf8_cons, List.length_append, List.mem_cons, hne.symm, false_or]
    refine ⟨by omega, ?_⟩
    intro hmem
    have := hlt hmem
    omega

/-- Without escapes a text stands for its own bytes. -/
theorem decodeBytes_eq_utf8_iff {cs : List Char} : decodeBytes cs = some (utf8 cs) ↔ '%' ∉ cs := by
  constructor
  · intro h hmem
    exact Nat.lt_irrefl _ ((length_decodeBytes_le h).2 hmem)
  · intro h
    induction cs with
    | nil => rfl
    | cons c cs ih =>
      rw [List.mem_cons, not_or] at h
      rw [decodeBytes_cons_of_ne (Ne.symm h.1), ih h.2, utf8_cons, Option.map_some]

theorem utf8_of_fromUTF8? {bytes : List UInt8} {s : String}
    (h : String.fromUTF8? bytes.toByteArray = some s) : bytes = utf8 s.toList := by
  have hs := fromUTF8?_utf8 s
  unfold String.fromUTF8? at h hs
  split at h
  · split at hs
    · -- both texts are kept in the bytes they were made of
      have hsame := (Option.some.inj h).trans (Option.some.inj hs).symm
      exact List.toByteArray_inj.mp (congrArg String.toByteArray hsame)
    · exact absurd hs nofun
  · exact absurd h nofun

/-- The texts that decode to themselves are those without an escape. -/
theorem decode?_eq_self_iff (s : String) : decode? s.toList = some s ↔ '%' ∉ s.toList := by
  rw [← decodeBytes_eq_utf8_iff, decode?]
  constructor
  · intro h
    obtain ⟨bytes, hbytes, hs⟩ := Option.bind_eq_some_iff.mp h
    rw [hbytes, utf8_of_fromUTF8? hs]
  · intro h
    rw [h]
    exact fromUTF8?_utf8 s

/-! ## The alphabet -/

private theorem isEncodedChar_of_mem_encodeByte {b : UInt8} {c : Char}
    (h : c ∈ encodeByte isUnreserved b) : isEncodedChar c = true := by
  have hlt : b.toNat < 256 := b.toNat_lt
  simp only [encodeByte] at h
  unfold isEncodedChar
  split at h
  · rename_i hkept
    simp only [Bool.and_eq_true] at hkept
    rw [List.mem_singleton.mp h, hkept.2, Bool.true_or]
  · simp only [escaped, List.mem_cons, List.not_mem_nil, or_false] at h
    rcases h with rfl | rfl | rfl
    · rfl
    · rw [isUnreserved_upperHexDigit (by omega), Bool.true_or]
    · rw [isUnreserved_upperHexDigit (by omega), Bool.true_or]

/-- Encoded texts hold unreserved characters and `%` only. -/
theorem isEncodedChar_of_mem_encode {cs : List Char} {c : Char} (h : c ∈ encode cs) :
    isEncodedChar c = true := by
  obtain ⟨b, _, hb⟩ := List.mem_flatMap.mp h
  exact isEncodedChar_of_mem_encodeByte hb

/-- No separator of a query is left in an encoded text. -/
theorem not_mem_encode {cs : List Char} {c : Char} (h : isEncodedChar c = false) :
    c ∉ encode cs := by
  intro hmem
  rw [isEncodedChar_of_mem_encode hmem] at h
  exact Bool.noConfusion h

end RecipeClient.Text.Percent
