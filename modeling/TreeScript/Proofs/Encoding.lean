import Mathlib.Data.List.Basic
import Mathlib.Data.String.Basic
import TreeScript.Proofs.ByteOrder
import TreeScript.Yaml.Cursor

/-!
# The characters of a text in UTF-8

The bytes of a permitted character are read as this character (`exists_nextUtf8_encodeChar`), so a
text of permitted characters is read as it is (`Cursor.rest_ofText`).
-/

namespace TreeScript.Yaml

theorem Spelled.ofValue_toNat {c : Char} (h : isPermitted c = true) (width : Nat) :
    ofValue width c.toNat = .char width c := by
  have hvalid : c.toNat < 0xD800 ∨ 0xDFFF < c.toNat ∧ c.toNat < 0x110000 := c.valid
  have hrange : ¬ (0xD800 ≤ c.toNat ∧ c.toNat ≤ 0xDFFF ∨ 0x10FFFF < c.toNat) := by omega
  simp only [ofValue, Bool.or_eq_true, Bool.and_eq_true, decide_eq_true_eq, hrange, if_false,
    Char.ofNat_toNat, h, if_true]

namespace Encoding

theorem nextUtf8_of_lead {b : UInt8} {width bits value : Nat} {trailing : List UInt8}
    (hlead : lead b = some (width, bits)) (hlength : trailing.length = width - 1)
    (htrailing : ∀ t ∈ trailing, 0x80 ≤ t.toNat ∧ t.toNat < 0xC0)
    (hvalue : trailing.foldl (fun value t => value * 64 + (t.toNat - 0x80)) bits = value)
    (hleast : least width ≤ value) (rest : List UInt8) :
    nextUtf8 b (trailing ++ rest) = .ofValue width value := by
  have htake : (trailing ++ rest).take (width - 1) = trailing := by
    rw [← hlength, List.take_left]
  have hall : trailing.all isTrailing = true := by
    simpa only [isTrailing, List.all_eq_true, Bool.and_eq_true, decide_eq_true_eq] using htrailing
  simp only [nextUtf8, hlead, htake, hlength, Nat.lt_irrefl, if_false, hall, Bool.not_true,
    Bool.false_eq_true, hvalue, Nat.not_lt.2 hleast]

theorem lead_eq_some {b : UInt8} {width bits : Nat}
    (h : width = 1 ∧ b.toNat < 0x80 ∧ b.toNat = bits ∨
      width = 2 ∧ b.toNat = bits + 0xC0 ∧ bits < 0x20 ∨
      width = 3 ∧ b.toNat = bits + 0xE0 ∧ bits < 0x10 ∨
      width = 4 ∧ b.toNat = bits + 0xF0 ∧ bits < 0x08) : lead b = some (width, bits) := by
  simp only [lead, Bool.and_eq_true, decide_eq_true_eq]
  obtain ⟨rfl, hb, hbits⟩ | ⟨rfl, hb, hbits⟩ | ⟨rfl, hb, hbits⟩ | ⟨rfl, hb, hbits⟩ := h
  · rw [if_pos hb, hbits]
  · rw [if_neg (by omega), if_pos (by omega), hb, Nat.add_sub_cancel]
  · rw [if_neg (by omega), if_neg (by omega), if_pos (by omega), hb, Nat.add_sub_cancel]
  · rw [if_neg (by omega), if_neg (by omega), if_neg (by omega), if_pos (by omega), hb,
      Nat.add_sub_cancel]

theorem toNat_trailing (n : Nat) : (UInt8.ofNat (n % 64 + 0x80)).toNat = n % 64 + 0x80 := by
  rw [UInt8.toNat_ofNat']
  omega

theorem trailing_range (n : Nat) : 0x80 ≤ (UInt8.ofNat (n % 64 + 0x80)).toNat ∧
    (UInt8.ofNat (n % 64 + 0x80)).toNat < 0xC0 := by
  rw [toNat_trailing]
  omega

/-- A character is read from its bytes. -/
theorem exists_nextUtf8_encodeChar {c : Char} (h : isPermitted c = true) (rest : List UInt8) :
    ∃ b more, String.utf8EncodeChar c = b :: more ∧
      nextUtf8 b (more ++ rest) = .char (more.length + 1) c := by
  have hvalid : c.toNat < 0xD800 ∨ 0xDFFF < c.toNat ∧ c.toNat < 0x110000 := c.valid
  have hbyte (n : Nat) : (UInt8.ofNat n).toNat = n % 256 := UInt8.toNat_ofNat'
  have hthird : c.toNat / 4096 = c.toNat / 64 / 64 := by omega
  have hfourth : c.toNat / 262144 = c.toNat / 64 / 64 / 64 := by omega
  have hvalue := Spelled.ofValue_toNat h
  unfold String.utf8EncodeChar
  change ∃ b more, (if c.toNat ≤ _ then [UInt8.ofNat c.toNat] else
    if c.toNat ≤ _ then [UInt8.ofNat (c.toNat / 64 % 32 + _), UInt8.ofNat (c.toNat % 64 + _)] else
    if c.toNat ≤ _ then [UInt8.ofNat (c.toNat / 4096 % 16 + _),
      UInt8.ofNat (c.toNat / 64 % 64 + _), UInt8.ofNat (c.toNat % 64 + _)] else
    [UInt8.ofNat (c.toNat / 262144 % 8 + _), UInt8.ofNat (c.toNat / 4096 % 64 + _),
      UInt8.ofNat (c.toNat / 64 % 64 + _), UInt8.ofNat (c.toNat % 64 + _)]) = b :: more ∧ _
  rw [hthird, hfourth]
  generalize c.toNat = n at *
  split_ifs with h1 h2 h3
  · refine ⟨_, [], rfl, ?_⟩
    rw [← hvalue]
    have hlead : lead (.ofNat n) = some (1, n) :=
      lead_eq_some (.inl ⟨rfl, by rw [hbyte]; omega, by rw [hbyte]; omega⟩)
    exact nextUtf8_of_lead hlead rfl (List.forall_mem_nil _) rfl (Nat.zero_le n) rest
  · refine ⟨_, [_], rfl, ?_⟩
    rw [← hvalue]
    have hlead : lead (.ofNat (n / 64 % 32 + 192)) = some (2, n / 64) :=
      lead_eq_some (.inr (.inl ⟨rfl, by rw [hbyte]; omega, by omega⟩))
    apply nextUtf8_of_lead hlead rfl
    · exact List.forall_mem_singleton.2 (trailing_range _)
    · simp only [List.foldl, toNat_trailing]
      omega
    · exact Nat.not_le.1 h1
  · refine ⟨_, [_, _], rfl, ?_⟩
    rw [← hvalue]
    have hlead : lead (.ofNat (n / 64 / 64 % 16 + 224)) = some (3, n / 64 / 64) :=
      lead_eq_some (.inr (.inr (.inl ⟨rfl, by rw [hbyte]; omega, by omega⟩)))
    apply nextUtf8_of_lead hlead rfl
    · exact List.forall_mem_cons.2
        ⟨trailing_range _, List.forall_mem_singleton.2 (trailing_range _)⟩
    · simp only [List.foldl, toNat_trailing]
      omega
    · exact Nat.not_le.1 h2
  · refine ⟨_, [_, _, _], rfl, ?_⟩
    rw [← hvalue]
    have hlead : lead (.ofNat (n / 64 / 64 / 64 % 8 + 240)) = some (4, n / 64 / 64 / 64) :=
      lead_eq_some (.inr (.inr (.inr ⟨rfl, by rw [hbyte]; omega, by omega⟩)))
    apply nextUtf8_of_lead hlead rfl
    · exact List.forall_mem_cons.2 ⟨trailing_range _,
        List.forall_mem_cons.2 ⟨trailing_range _, List.forall_mem_singleton.2 (trailing_range _)⟩⟩
    · simp only [List.foldl, toNat_trailing]
      omega
    · exact Nat.not_le.1 h3

theorem spell_drop (e : Encoding) (passed bytes : List UInt8) :
    spell e (passed ++ bytes) passed.length = spell e bytes 0 := by
  induction passed with
  | nil => rfl
  | cons b passed ih => exact ih

/-- Bytes in UTF-8 spell the characters they come from. -/
theorem spell_flatMap {cs : List Char} (h : ∀ c ∈ cs, isPermitted c = true) :
    (spell .utf8 (cs.flatMap String.utf8EncodeChar) 0).filterMap Spelled.char? = cs := by
  induction cs with
  | nil => rfl
  | cons c cs ih =>
    rw [List.forall_mem_cons] at h
    obtain ⟨b, more, hbytes, hnext⟩ :=
      exists_nextUtf8_encodeChar h.1 (cs.flatMap String.utf8EncodeChar)
    have hstep : spell .utf8 ((c :: cs).flatMap String.utf8EncodeChar) 0 =
        .char (more.length + 1) c :: spell .utf8 (cs.flatMap String.utf8EncodeChar) 0 := by
      rw [List.flatMap_cons, hbytes, List.cons_append, spell, next, hnext]
      dsimp only
      rw [Nat.add_sub_cancel, spell_drop]
    rw [hstep, List.filterMap_cons, Spelled.char?, ih h.2]

theorem detect_flatMap {c : Char} (h : isPermitted c = true) (hmark : c ≠ byteOrderMark)
    (cs : List Char) : detect ((c :: cs).flatMap String.utf8EncodeChar) =
      (.utf8, 0, (c :: cs).flatMap String.utf8EncodeChar) := by
  obtain ⟨b, more, hbytes, hnext⟩ :=
    exists_nextUtf8_encodeChar h (cs.flatMap String.utf8EncodeChar)
  rw [List.flatMap_cons, hbytes, List.cons_append]
  generalize more ++ cs.flatMap String.utf8EncodeChar = bytes at *
  unfold detect
  split
  next heq =>
    obtain ⟨rfl, rfl⟩ := List.cons.inj heq
    cases hnext
  next heq =>
    obtain ⟨rfl, rfl⟩ := List.cons.inj heq
    cases hnext
  next rest heq =>
    obtain ⟨rfl, rfl⟩ := List.cons.inj heq
    have hlead : lead 0xEF = some (3, 0xF) := by decide
    have htrailing : ∀ t ∈ [(0xBB : UInt8), 0xBF], 0x80 ≤ t.toNat ∧ t.toNat < 0xC0 :=
      List.forall_mem_cons.2
        ⟨trailing_range 0x3B, List.forall_mem_singleton.2 (trailing_range 0x3F)⟩
    have hread : nextUtf8 0xEF ([0xBB, 0xBF] ++ rest) = .ofValue 3 0xFEFF :=
      nextUtf8_of_lead hlead rfl htrailing rfl (by decide) rest
    have hvalue : Spelled.ofValue 3 0xFEFF = .char 3 byteOrderMark := by decide
    exact absurd (Spelled.char.inj (hnext.symm.trans (hread.trans hvalue))).2 hmark
  · rfl

end Encoding

namespace Cursor

theorem rest_ofText_of_detect {text : String} {c : Char} {cs : List Char} {width : Nat}
    (htext : text.toList = c :: cs) {bytes : List UInt8}
    (hdetect : Encoding.detect ((c :: cs).flatMap String.utf8EncodeChar) = (.utf8, width, bytes)) :
    (ofText text).rest = (Encoding.spell .utf8 bytes 0).filterMap Spelled.char? := by
  have hbytes : (RawText.ofText text).bytes = (c :: cs).flatMap String.utf8EncodeChar := by
    rw [← htext]
    exact Text.bytes_eq_flatMap text
  have hne : (RawText.ofText text).bytes.isEmpty = false := by
    obtain ⟨b, more, hchar⟩ := List.exists_cons_of_ne_nil (String.utf8EncodeChar_ne_nil (c := c))
    rw [hbytes, List.flatMap_cons, hchar, List.cons_append, List.isEmpty_cons]
  rw [← hbytes] at hdetect
  simp only [ofText, hne, Bool.false_eq_true, if_false, hdetect]

/-- A text in UTF-8 is read as it is. -/
theorem rest_ofText {text : String} (hne : text ≠ "")
    (h : ∀ c ∈ text.toList, isPermitted c = true)
    (hmark : text.toList.head? ≠ some byteOrderMark) : (ofText text).rest = text.toList := by
  obtain ⟨c, cs, htext⟩ := List.exists_cons_of_ne_nil (mt String.toList_eq_nil_iff.1 hne)
  rw [htext] at h hmark ⊢
  rw [rest_ofText_of_detect htext (Encoding.detect_flatMap (h c List.mem_cons_self) ?_ cs)]
  · exact Encoding.spell_flatMap h
  · exact fun hc => hmark (congrArg some hc)

/-- A byte order mark is not part of the text behind it. -/
theorem rest_ofText_marked {text : String} {cs : List Char}
    (htext : text.toList = byteOrderMark :: cs) (h : ∀ c ∈ cs, isPermitted c = true) :
    (ofText text).rest = cs := by
  have hdetect : Encoding.detect ((byteOrderMark :: cs).flatMap String.utf8EncodeChar) =
    (.utf8, 3, cs.flatMap String.utf8EncodeChar) := rfl
  rw [rest_ofText_of_detect htext hdetect, Encoding.spell_flatMap h]

end Cursor

end TreeScript.Yaml
