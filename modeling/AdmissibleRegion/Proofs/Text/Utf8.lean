import AdmissibleRegion.Proofs.Checked
import AdmissibleRegion.Text.Utf8

/-!
# Bytes that are text

The bytes that can be read are exactly those that some text is written with, and reading them
gives that text.
-/

namespace AdmissibleRegion.Text.Utf8

variable {b low high : UInt8} {owed lead code fitted position : Nat}
  {bytes rest behind : List UInt8} {text : List Char} {result : Nat × List UInt8}

/-- What the first byte says, by its value. -/
theorem lead?_eq (b : UInt8) : lead? b =
    if b.toNat < 0x80 then some (0, 0x80, 0xBF, b.toNat)
    else if b.toNat < 0xC2 then none
    else if b.toNat < 0xE0 then some (1, 0x80, 0xBF, b.toNat - 0xC0)
    else if b.toNat < 0xF0 then
      some (2, if b.toNat = 0xE0 then 0xA0 else 0x80, if b.toNat = 0xED then 0x9F else 0xBF,
        b.toNat - 0xE0)
    else if b.toNat < 0xF5 then
      some (3, if b.toNat = 0xF0 then 0x90 else 0x80, if b.toNat = 0xF4 then 0x8F else 0xBF,
        b.toNat - 0xF0)
    else none := by
  unfold lead?
  simp only [UInt8.lt_iff_toNat_lt, ← UInt8.toNat_inj]
  rfl

@[simp] theorem tail_zero : tail 0 low high code fitted bytes = .ok (code, bytes) := by
  unfold tail
  rfl

/-- A further byte is read if it lies between its bounds. -/
theorem tail_succ_eq_ok : tail (owed + 1) low high code fitted bytes = .ok result ↔
    ∃ b rest, bytes = b :: rest ∧ low.toNat ≤ b.toNat ∧ b.toNat ≤ high.toNat ∧
      tail owed 0x80 0xBF (code * 64 + (b.toNat - 0x80)) (fitted + 1) rest = .ok result := by
  cases bytes with
  | nil => simp [tail]
  | cons b rest =>
    rw [tail]
    simp only [UInt8.le_iff_toNat_le]
    split
    · rename_i hbounds
      constructor
      · intro h
        exact ⟨b, rest, rfl, hbounds.1, hbounds.2, h⟩
      · rintro ⟨_, _, heq, _, _, h⟩
        obtain ⟨rfl, rfl⟩ := List.cons.inj heq
        exact h
    · rename_i hbounds
      constructor
      · intro h
        cases h
      · rintro ⟨_, _, heq, hlow, hhigh, _⟩
        obtain ⟨rfl, rfl⟩ := List.cons.inj heq
        exact absurd ⟨hlow, hhigh⟩ hbounds

/-- A character begins with a byte of one of four ranges. -/
theorem lead?_cases {found : Nat × UInt8 × UInt8 × Nat} (h : lead? b = some found) :
    b.toNat < 0x80 ∨ (0xC2 ≤ b.toNat ∧ b.toNat < 0xE0) ∨ (0xE0 ≤ b.toNat ∧ b.toNat < 0xF0) ∨
      (0xF0 ≤ b.toNat ∧ b.toNat < 0xF5) := by
  rw [lead?_eq] at h
  split_ifs at h <;> omega

theorem lead?_one (h : b.toNat < 0x80) : lead? b = some (0, 0x80, 0xBF, b.toNat) := by
  rw [lead?_eq, if_pos h]

theorem lead?_two (h : 0xC2 ≤ b.toNat ∧ b.toNat < 0xE0) :
    lead? b = some (1, 0x80, 0xBF, b.toNat - 0xC0) := by
  rw [lead?_eq, if_neg (by omega), if_neg (by omega), if_pos h.2]

/-- A bound that depends on the first byte. -/
private theorem toNat_bound (p : Prop) [Decidable p] (x y : UInt8) :
    p ∧ (if p then x else y).toNat = x.toNat ∨ ¬p ∧ (if p then x else y).toNat = y.toNat := by
  by_cases h : p
  · exact .inl ⟨h, by rw [if_pos h]⟩
  · exact .inr ⟨h, by rw [if_neg h]⟩

/-- The second of three bytes is bounded so that there is no shorter way and no surrogate. -/
theorem lead?_three (h : 0xE0 ≤ b.toNat ∧ b.toNat < 0xF0) : ∃ low high : UInt8,
    lead? b = some (2, low, high, b.toNat - 0xE0) ∧
      (b.toNat = 0xE0 ∧ low.toNat = 0xA0 ∨ b.toNat ≠ 0xE0 ∧ low.toNat = 0x80) ∧
      (b.toNat = 0xED ∧ high.toNat = 0x9F ∨ b.toNat ≠ 0xED ∧ high.toNat = 0xBF) := by
  have hlead : lead? b = some (2, if b.toNat = 0xE0 then 0xA0 else 0x80,
      if b.toNat = 0xED then 0x9F else 0xBF, b.toNat - 0xE0) := by
    rw [lead?_eq, if_neg (by omega), if_neg (by omega), if_neg (by omega), if_pos h.2]
  exact ⟨_, _, hlead, toNat_bound _ 0xA0 0x80, toNat_bound _ 0x9F 0xBF⟩

/-- The second of four bytes is bounded so that there is no shorter way and no greater code point
than the last one. -/
theorem lead?_four (h : 0xF0 ≤ b.toNat ∧ b.toNat < 0xF5) : ∃ low high : UInt8,
    lead? b = some (3, low, high, b.toNat - 0xF0) ∧
      (b.toNat = 0xF0 ∧ low.toNat = 0x90 ∨ b.toNat ≠ 0xF0 ∧ low.toNat = 0x80) ∧
      (b.toNat = 0xF4 ∧ high.toNat = 0x8F ∨ b.toNat ≠ 0xF4 ∧ high.toNat = 0xBF) := by
  have hlead : lead? b = some (3, if b.toNat = 0xF0 then 0x90 else 0x80,
      if b.toNat = 0xF4 then 0x8F else 0xBF, b.toNat - 0xF0) := by
    rw [lead?_eq, if_neg (by omega), if_neg (by omega), if_neg (by omega), if_neg (by omega),
      if_pos h.2]
  exact ⟨_, _, hlead, toNat_bound _ 0x90 0x80, toNat_bound _ 0x8F 0xBF⟩

/-- A byte that is not the first one of a character. -/
def Follows (b : UInt8) : Prop := 0x80 ≤ b.toNat ∧ b.toNat ≤ 0xBF

/-- The bytes that a code point is written with. -/
inductive Writes (code : Nat) : List UInt8 → Prop where
  | one {b : UInt8} : b.toNat < 0x80 → code = b.toNat → Writes code [b]
  | two {b b1 : UInt8} : 0xC2 ≤ b.toNat ∧ b.toNat < 0xE0 → Follows b1 →
      code = (b.toNat - 0xC0) * 64 + (b1.toNat - 0x80) → Writes code [b, b1]
  /-- There is no shorter way, and the code point is no surrogate. -/
  | three {b b1 b2 : UInt8} : 0xE0 ≤ b.toNat ∧ b.toNat < 0xF0 → Follows b1 → Follows b2 →
      (b.toNat = 0xE0 → 0xA0 ≤ b1.toNat) → (b.toNat = 0xED → b1.toNat ≤ 0x9F) →
      code = ((b.toNat - 0xE0) * 64 + (b1.toNat - 0x80)) * 64 + (b2.toNat - 0x80) →
      Writes code [b, b1, b2]
  /-- There is no shorter way, and the code point is not beyond the last one. -/
  | four {b b1 b2 b3 : UInt8} : 0xF0 ≤ b.toNat ∧ b.toNat < 0xF5 → Follows b1 → Follows b2 →
      Follows b3 → (b.toNat = 0xF0 → 0x90 ≤ b1.toNat) → (b.toNat = 0xF4 → b1.toNat ≤ 0x8F) →
      code = (((b.toNat - 0xF0) * 64 + (b1.toNat - 0x80)) * 64 + (b2.toNat - 0x80)) * 64 +
        (b3.toNat - 0x80) →
      Writes code [b, b1, b2, b3]

/-- What is read as a character is what its code point is written with. -/
theorem exists_writes_of_tail (hlead : lead? b = some (owed, low, high, lead))
    (htail : tail owed low high lead 1 rest = .ok (code, behind)) :
    ∃ written, Writes code written ∧ b :: rest = written ++ behind := by
  rcases lead?_cases hlead with h | h | h | h
  · rw [lead?_one h] at hlead
    obtain ⟨rfl, rfl, rfl, rfl⟩ : _ ∧ _ ∧ _ ∧ _ := by simpa using hlead
    obtain ⟨rfl, rfl⟩ : b.toNat = code ∧ rest = behind := by simpa using htail
    exact ⟨_, .one h rfl, rfl⟩
  · rw [lead?_two h] at hlead
    obtain ⟨rfl, rfl, rfl, rfl⟩ : _ ∧ _ ∧ _ ∧ _ := by simpa using hlead
    obtain ⟨b1, rest, rfl, hlow, hhigh, htail⟩ := tail_succ_eq_ok.mp htail
    obtain ⟨rfl, rfl⟩ : _ = code ∧ rest = behind := by simpa using htail
    exact ⟨_, .two h ⟨hlow, hhigh⟩ rfl, rfl⟩
  · obtain ⟨low3, high3, hthree, hlow3, hhigh3⟩ := lead?_three h
    rw [hthree] at hlead
    obtain ⟨rfl, rfl, rfl, rfl⟩ : _ ∧ _ ∧ _ ∧ _ := by simpa using hlead
    obtain ⟨b1, rest, rfl, hlow, hhigh, htail⟩ := tail_succ_eq_ok.mp htail
    obtain ⟨b2, rest, rfl, hlow2, hhigh2, htail⟩ := tail_succ_eq_ok.mp htail
    obtain ⟨rfl, rfl⟩ : _ = code ∧ rest = behind := by simpa using htail
    exact ⟨_, .three h ⟨by omega, by omega⟩ ⟨hlow2, hhigh2⟩ (by omega) (by omega) rfl, rfl⟩
  · obtain ⟨low4, high4, hfour, hlow4, hhigh4⟩ := lead?_four h
    rw [hfour] at hlead
    obtain ⟨rfl, rfl, rfl, rfl⟩ : _ ∧ _ ∧ _ ∧ _ := by simpa using hlead
    obtain ⟨b1, rest, rfl, hlow, hhigh, htail⟩ := tail_succ_eq_ok.mp htail
    obtain ⟨b2, rest, rfl, hlow2, hhigh2, htail⟩ := tail_succ_eq_ok.mp htail
    obtain ⟨b3, rest, rfl, hlow3, hhigh3, htail⟩ := tail_succ_eq_ok.mp htail
    obtain ⟨rfl, rfl⟩ : _ = code ∧ rest = behind := by simpa using htail
    exact ⟨_, .four h ⟨by omega, by omega⟩ ⟨hlow2, hhigh2⟩ ⟨hlow3, hhigh3⟩ (by omega) (by omega)
      rfl, rfl⟩

/-- What a code point is written with is read as that code point, whatever follows. -/
theorem Writes.exists_tail (h : Writes code bytes) (rest : List UInt8) :
    ∃ b more owed low high lead, bytes = b :: more ∧ lead? b = some (owed, low, high, lead) ∧
      tail owed low high lead 1 (more ++ rest) = .ok (code, rest) := by
  cases h with
  | one hb hcode =>
    exact ⟨_, _, _, _, _, _, rfl, lead?_one hb, by rw [hcode, tail_zero]; rfl⟩
  | two hb h1 hcode =>
    refine ⟨_, _, _, _, _, _, rfl, lead?_two hb, ?_⟩
    refine tail_succ_eq_ok.mpr ⟨_, rest, rfl, h1.1, h1.2, ?_⟩
    rw [tail_zero, hcode]
  | three hb h1 h2 hleast hgreatest hcode =>
    obtain ⟨low, high, hlead, hlow, hhigh⟩ := lead?_three hb
    obtain ⟨hlow1, hhigh1⟩ := h1
    refine ⟨_, _, _, _, _, _, rfl, hlead, ?_⟩
    refine tail_succ_eq_ok.mpr ⟨_, _, rfl, by omega, by omega, ?_⟩
    refine tail_succ_eq_ok.mpr ⟨_, rest, rfl, h2.1, h2.2, ?_⟩
    rw [tail_zero, hcode]
  | four hb h1 h2 h3 hleast hgreatest hcode =>
    obtain ⟨low, high, hlead, hlow, hhigh⟩ := lead?_four hb
    obtain ⟨hlow1, hhigh1⟩ := h1
    refine ⟨_, _, _, _, _, _, rfl, hlead, ?_⟩
    refine tail_succ_eq_ok.mpr ⟨_, _, rfl, by omega, by omega, ?_⟩
    refine tail_succ_eq_ok.mpr ⟨_, _, rfl, h2.1, h2.2, ?_⟩
    refine tail_succ_eq_ok.mpr ⟨_, rest, rfl, h3.1, h3.2, ?_⟩
    rw [tail_zero, hcode]

/-- The bytes of a character, by its code point. -/
theorem utf8EncodeChar_ofNat (h : code.isValidChar) : String.utf8EncodeChar (Char.ofNat code) =
    if code ≤ 0x7F then [UInt8.ofNat code]
    else if code ≤ 0x7FF then
      [UInt8.ofNat (code / 64 % 32 + 0xC0), UInt8.ofNat (code % 64 + 0x80)]
    else if code ≤ 0xFFFF then
      [UInt8.ofNat (code / 4096 % 16 + 0xE0), UInt8.ofNat (code / 64 % 64 + 0x80),
        UInt8.ofNat (code % 64 + 0x80)]
    else
      [UInt8.ofNat (code / 262144 % 8 + 0xF0), UInt8.ofNat (code / 4096 % 64 + 0x80),
        UInt8.ofNat (code / 64 % 64 + 0x80), UInt8.ofNat (code % 64 + 0x80)] := by
  have hcode : (Char.ofNat code).val.toNat = code := by
    rw [Char.ofNat, dif_pos h]
    rfl
  unfold String.utf8EncodeChar
  simp only [hcode]

/-- A byte is given by its value. -/
theorem ofNat_eq (h : code = b.toNat) : UInt8.ofNat code = b := by
  rw [h, UInt8.ofNat_toNat]

/-- A character is written in one way. -/
theorem Writes.eq_utf8EncodeChar (h : Writes code bytes) :
    bytes = String.utf8EncodeChar (Char.ofNat code) := by
  cases h with
  | one hb hcode =>
    rw [utf8EncodeChar_ofNat (by simp only [Nat.isValidChar]; omega), if_pos (by omega),
      ofNat_eq hcode]
  | @two b b1 hb h1 hcode =>
    obtain ⟨hlow1, hhigh1⟩ := h1
    rw [utf8EncodeChar_ofNat (by simp only [Nat.isValidChar]; omega), if_neg (by omega),
      if_pos (by omega), ofNat_eq (b := b) (by omega), ofNat_eq (b := b1) (by omega)]
  | @three b b1 b2 hb h1 h2 hleast hgreatest hcode =>
    obtain ⟨hlow1, hhigh1⟩ := h1
    obtain ⟨hlow2, hhigh2⟩ := h2
    rw [utf8EncodeChar_ofNat (by simp only [Nat.isValidChar]; omega), if_neg (by omega),
      if_neg (by omega), if_pos (by omega), ofNat_eq (b := b) (by omega),
      ofNat_eq (b := b1) (by omega), ofNat_eq (b := b2) (by omega)]
  | @four b b1 b2 b3 hb h1 h2 h3 hleast hgreatest hcode =>
    obtain ⟨hlow1, hhigh1⟩ := h1
    obtain ⟨hlow2, hhigh2⟩ := h2
    obtain ⟨hlow3, hhigh3⟩ := h3
    rw [utf8EncodeChar_ofNat (by simp only [Nat.isValidChar]; omega), if_neg (by omega),
      if_neg (by omega), if_neg (by omega), ofNat_eq (b := b) (by omega),
      ofNat_eq (b := b1) (by omega), ofNat_eq (b := b2) (by omega), ofNat_eq (b := b3) (by omega)]

/-- Every character is written in some way. -/
theorem exists_writes (h : code.isValidChar) : ∃ bytes, Writes code bytes := by
  have hvalue : ∀ m < 256, (UInt8.ofNat m).toNat = m := fun m hm => by
    rw [UInt8.toNat_ofNat', Nat.mod_eq_of_lt hm]
  have hfollows : ∀ m, Follows (UInt8.ofNat (m % 64 + 0x80)) := fun m => by
    rw [Follows, hvalue _ (by omega)]
    omega
  have hlast := hvalue (code % 64 + 0x80) (by omega)
  have hmiddle := hvalue (code / 64 % 64 + 0x80) (by omega)
  have hthird := hvalue (code / 4096 % 64 + 0x80) (by omega)
  simp only [Nat.isValidChar] at h
  rcases (by omega : code ≤ 0x7F ∨ 0x7F < code ∧ code ≤ 0x7FF ∨ 0x7FF < code ∧ code ≤ 0xFFFF ∨
    0xFFFF < code) with hone | htwo | hthree | hfour
  · have hb := hvalue code (by omega)
    exact ⟨_, .one (by omega) hb.symm⟩
  · have hb := hvalue (code / 64 + 0xC0) (by omega)
    exact ⟨_, .two (b := UInt8.ofNat (code / 64 + 0xC0)) (by omega) (hfollows code) (by omega)⟩
  · have hb := hvalue (code / 4096 + 0xE0) (by omega)
    exact ⟨_, .three (b := UInt8.ofNat (code / 4096 + 0xE0)) (by omega) (hfollows (code / 64))
      (hfollows code) (by omega) (by omega) (by omega)⟩
  · have hb := hvalue (code / 262144 + 0xF0) (by omega)
    exact ⟨_, .four (b := UInt8.ofNat (code / 262144 + 0xF0)) (by omega) (hfollows (code / 4096))
      (hfollows (code / 64)) (hfollows code) (by omega) (by omega) (by omega)⟩

/-- A character is read first, and then what follows. -/
theorem decodeFrom_of_tail (hlead : lead? b = some (owed, low, high, lead))
    (htail : tail owed low high lead 1 rest = .ok (code, behind)) :
    decodeFrom position (b :: rest) =
      (decodeFrom (position + owed + 1) behind).map (Char.ofNat code :: ·) := by
  rw [decodeFrom]
  simp only [hlead]
  split
  · rename_i htail'
    rw [htail] at htail'
    cases htail'
  · rename_i htail'
    rw [htail] at htail'
    obtain ⟨rfl, rfl⟩ := Prod.mk.inj (Except.ok.inj htail')
    cases decodeFrom (position + owed + 1) behind <;> rfl

/-- What is read is what the text is written with. -/
theorem eq_of_decodeFrom (h : decodeFrom position bytes = .ok text) :
    bytes = text.flatMap String.utf8EncodeChar := by
  fun_induction decodeFrom position bytes generalizing text with
  | case1 =>
    obtain rfl := Except.ok.inj h
    rfl
  | case2 => cases h
  | case3 => cases h
  | case4 position b rest owed low high lead hlead code behind htail ih =>
    obtain ⟨following, hfollowing, h⟩ := exists_of_bind_eq_ok h
    obtain rfl := Except.ok.inj h
    obtain ⟨written, hwrites, hbytes⟩ := exists_writes_of_tail hlead htail
    rw [hbytes, hwrites.eq_utf8EncodeChar, ih hfollowing, List.flatMap_cons]

/-- What a text is written with is read as that text. -/
theorem decodeFrom_flatMap (position : Nat) (text : List Char) :
    decodeFrom position (text.flatMap String.utf8EncodeChar) = .ok text := by
  induction text generalizing position with
  | nil =>
    rw [List.flatMap_nil, decodeFrom]
  | cons c text ih =>
    have hvalid : c.toNat.isValidChar := c.valid
    obtain ⟨written, hwrites⟩ := exists_writes hvalid
    have hwritten := hwrites.eq_utf8EncodeChar
    rw [Char.ofNat_toNat] at hwritten
    obtain ⟨b, more, owed, low, high, lead, rfl, hlead, htail⟩ :=
      hwrites.exists_tail (text.flatMap String.utf8EncodeChar)
    rw [List.flatMap_cons, ← hwritten, List.cons_append, decodeFrom_of_tail hlead htail, ih,
      Char.ofNat_toNat]
    rfl

/-- Bytes can be read exactly if they are what some text is written with. -/
theorem decode_eq_ok_iff :
    decode bytes = .ok text ↔ bytes = text.flatMap String.utf8EncodeChar := by
  constructor
  · exact eq_of_decodeFrom
  · rintro rfl
    exact decodeFrom_flatMap 0 text

end AdmissibleRegion.Text.Utf8
