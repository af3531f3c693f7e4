import FlatExports.Text.Utf8

/-!
Reading back what has been encoded.

The bytes of a character are those that `decode?` takes off for it, whatever
follows, so a text is read back from its own bytes.
-/

namespace FlatExports.Text

variable {c : Char} {least n code : Nat} {rest : Bytes}

theorem toNat_le (c : Char) : c.toNat ≤ 0x10FFFF := by
  rcases c.valid with h | ⟨-, h⟩
  · exact Nat.le_of_lt (Nat.lt_trans h (by decide))
  · exact Nat.le_of_lt_succ h

theorem scalar?_toNat (h : least ≤ c.toNat) : scalar? least c.toNat = some c := by
  have hvalid : c.toNat.isValidChar := c.valid
  rw [scalar?, dif_pos hvalid, if_pos h]
  exact congrArg some (Char.ext (UInt32.toNat_inj.mp rfl))

theorem toNat_ofNat_byte (h : n < 256) : (UInt8.ofNat n).toNat = n := by
  rw [UInt8.toNat_ofNat']
  exact Nat.mod_eq_of_lt h

theorem continuation?_ofNat (h : n < 64) : continuation? (UInt8.ofNat (n + 128)) = some n := by
  rw [continuation?, toNat_ofNat_byte (by omega), if_pos (by omega), Nat.add_sub_cancel]

/-! ## One character -/

section

variable {b b₁ b₂ b₃ : UInt8} {x₁ x₂ x₃ : Nat}

theorem decode?_one (hlead : b.toNat < 0x80) (hcode : b.toNat = c.toNat) :
    decode? (b :: rest) = (decode? rest).map (c :: ·) := by
  rw [hcode] at hlead
  rw [decode?.eq_def]
  simp only [hcode, if_pos hlead, scalar?_toNat (Nat.zero_le _)]
  cases decode? rest <;> rfl

theorem decode?_two (hlead : 0xC0 ≤ b.toNat ∧ b.toNat < 0xE0) (h₁ : continuation? b₁ = some x₁)
    (hcode : (b.toNat - 0xC0) * 64 + x₁ = c.toNat) (hleast : 0x80 ≤ c.toNat) :
    decode? (b :: b₁ :: rest) = (decode? rest).map (c :: ·) := by
  have hlong : ¬b.toNat < 0x80 := by omega
  rw [decode?.eq_def]
  simp only [if_neg hlong, h₁, if_pos hlead, hcode, scalar?_toNat hleast, Option.bind_eq_bind,
    Option.bind_some]
  cases decode? rest <;> rfl

theorem decode?_three (hlead : 0xE0 ≤ b.toNat ∧ b.toNat < 0xF0) (h₁ : continuation? b₁ = some x₁)
    (h₂ : continuation? b₂ = some x₂)
    (hcode : (b.toNat - 0xE0) * 4096 + x₁ * 64 + x₂ = c.toNat) (hleast : 0x800 ≤ c.toNat) :
    decode? (b :: b₁ :: b₂ :: rest) = (decode? rest).map (c :: ·) := by
  have hlong : ¬b.toNat < 0x80 := by omega
  have htwo : ¬(0xC0 ≤ b.toNat ∧ b.toNat < 0xE0) := by omega
  rw [decode?.eq_def]
  simp only [if_neg hlong, h₁, if_neg htwo, h₂, if_pos hlead, hcode, scalar?_toNat hleast,
    Option.bind_eq_bind, Option.bind_some]
  cases decode? rest <;> rfl

theorem decode?_four (hlead : 0xF0 ≤ b.toNat ∧ b.toNat < 0xF8) (h₁ : continuation? b₁ = some x₁)
    (h₂ : continuation? b₂ = some x₂) (h₃ : continuation? b₃ = some x₃)
    (hcode : (b.toNat - 0xF0) * 262144 + x₁ * 4096 + x₂ * 64 + x₃ = c.toNat)
    (hleast : 0x10000 ≤ c.toNat) :
    decode? (b :: b₁ :: b₂ :: b₃ :: rest) = (decode? rest).map (c :: ·) := by
  have hlong : ¬b.toNat < 0x80 := by omega
  have htwo : ¬(0xC0 ≤ b.toNat ∧ b.toNat < 0xE0) := by omega
  have hthree : ¬(0xE0 ≤ b.toNat ∧ b.toNat < 0xF0) := by omega
  -- Rewritten from the outside in: under the binders of the reads still ahead it would be slow.
  rw [decode?.eq_def]
  dsimp only
  rw [if_neg hlong, h₁, Option.bind_eq_bind, Option.bind_some, if_neg htwo, h₂,
    Option.bind_eq_bind, Option.bind_some, if_neg hthree, h₃, Option.bind_eq_bind,
    Option.bind_some, if_pos hlead, hcode, scalar?_toNat hleast, Option.bind_some]
  cases decode? rest <;> rfl

end

theorem decode?_encodeChar (c : Char) (rest : Bytes) :
    decode? (String.utf8EncodeChar c ++ rest) = (decode? rest).map (c :: ·) := by
  have hcode : c.val.toNat = c.toNat := rfl
  have hbound := toNat_le c
  rw [String.utf8EncodeChar, hcode]
  split
  · have hlead := toNat_ofNat_byte (n := c.toNat) (by omega)
    exact decode?_one (by omega) hlead
  split
  · have hlead := toNat_ofNat_byte (n := c.toNat / 64 % 32 + 192) (by omega)
    exact decode?_two (by omega) (continuation?_ofNat (by omega)) (by omega) (by omega)
  split
  · have hlead := toNat_ofNat_byte (n := c.toNat / 4096 % 16 + 224) (by omega)
    exact decode?_three (by omega) (continuation?_ofNat (by omega))
      (continuation?_ofNat (by omega)) (by omega) (by omega)
  · have hlead := toNat_ofNat_byte (n := c.toNat / 262144 % 8 + 240) (by omega)
    exact decode?_four (by omega) (continuation?_ofNat (by omega))
      (continuation?_ofNat (by omega)) (continuation?_ofNat (by omega)) (by omega) (by omega)

/-- A text is read back from its bytes. -/
theorem decode?_encode (text : List Char) : decode? (encode text) = some text := by
  induction text with
  | nil => rfl
  | cons c rest ih =>
      rw [encode, List.flatMap_cons, decode?_encodeChar]
      exact congrArg (Option.map (c :: ·)) ih

theorem text?_bytesOf (text : String) : text? (bytesOf text) = some text := by
  rw [text?, bytesOf, decode?_encode, Option.map_some, String.ofList_toList]

/-! ## Only what has been encoded is read -/

theorem scalar?_eq_some (h : scalar? least code = some c) : c.toNat = code ∧ least ≤ code := by
  obtain ⟨hvalid, h⟩ := Option.dite_none_right_eq_some.mp h
  obtain ⟨hleast, h⟩ := Option.ite_none_right_eq_some.mp h
  obtain rfl := Option.some.inj h
  exact ⟨rfl, hleast⟩

theorem ofNat_eq_of_toNat {b : UInt8} (h : b.toNat = n) : UInt8.ofNat n = b := by
  rw [← h, UInt8.ofNat_toNat]

section

variable {b b₁ b₂ b₃ : UInt8} {x x₁ x₂ x₃ : Nat}

theorem continuation?_eq_some (h : continuation? b = some x) : x < 64 ∧ b.toNat = x + 128 := by
  unfold continuation? at h
  split at h
  · have hx := Option.some.inj h
    omega
  · cases h

theorem encodeChar_one (hlead : b.toNat < 0x80) (hcode : scalar? 0 b.toNat = some c) :
    String.utf8EncodeChar c = [b] := by
  have hc : c.val.toNat = b.toNat := (scalar?_eq_some hcode).1
  rw [String.utf8EncodeChar, hc, if_pos (by omega), UInt8.ofNat_toNat]

theorem encodeChar_two (hlead : 0xC0 ≤ b.toNat ∧ b.toNat < 0xE0)
    (h₁ : continuation? b₁ = some x₁)
    (hcode : scalar? 0x80 ((b.toNat - 0xC0) * 64 + x₁) = some c) :
    String.utf8EncodeChar c = [b, b₁] := by
  obtain ⟨hc, hleast⟩ := scalar?_eq_some hcode
  change c.val.toNat = _ at hc
  obtain ⟨hx₁, hb₁⟩ := continuation?_eq_some h₁
  rw [String.utf8EncodeChar, hc, if_neg (by omega), if_pos (by omega),
    ofNat_eq_of_toNat (b := b) (by omega), ofNat_eq_of_toNat (b := b₁) (by omega)]

theorem encodeChar_three (hlead : 0xE0 ≤ b.toNat ∧ b.toNat < 0xF0)
    (h₁ : continuation? b₁ = some x₁) (h₂ : continuation? b₂ = some x₂)
    (hcode : scalar? 0x800 ((b.toNat - 0xE0) * 4096 + x₁ * 64 + x₂) = some c) :
    String.utf8EncodeChar c = [b, b₁, b₂] := by
  obtain ⟨hc, hleast⟩ := scalar?_eq_some hcode
  change c.val.toNat = _ at hc
  obtain ⟨hx₁, hb₁⟩ := continuation?_eq_some h₁
  obtain ⟨hx₂, hb₂⟩ := continuation?_eq_some h₂
  rw [String.utf8EncodeChar, hc, if_neg (by omega), if_neg (by omega), if_pos (by omega),
    ofNat_eq_of_toNat (b := b) (by omega), ofNat_eq_of_toNat (b := b₁) (by omega),
    ofNat_eq_of_toNat (b := b₂) (by omega)]

theorem encodeChar_four (hlead : 0xF0 ≤ b.toNat ∧ b.toNat < 0xF8)
    (h₁ : continuation? b₁ = some x₁) (h₂ : continuation? b₂ = some x₂)
    (h₃ : continuation? b₃ = some x₃)
    (hcode : scalar? 0x10000 ((b.toNat - 0xF0) * 262144 + x₁ * 4096 + x₂ * 64 + x₃) = some c) :
    String.utf8EncodeChar c = [b, b₁, b₂, b₃] := by
  obtain ⟨hc, hleast⟩ := scalar?_eq_some hcode
  change c.val.toNat = _ at hc
  obtain ⟨hx₁, hb₁⟩ := continuation?_eq_some h₁
  obtain ⟨hx₂, hb₂⟩ := continuation?_eq_some h₂
  obtain ⟨hx₃, hb₃⟩ := continuation?_eq_some h₃
  rw [String.utf8EncodeChar, hc, if_neg (by omega), if_neg (by omega), if_neg (by omega),
    ofNat_eq_of_toNat (b := b) (by omega), ofNat_eq_of_toNat (b := b₁) (by omega),
    ofNat_eq_of_toNat (b := b₂) (by omega), ofNat_eq_of_toNat (b := b₃) (by omega)]

end

theorem readChar_eq_some {behind : Bytes} {text : List Char}
    (h : (do let c ← scalar? least code
             let more ← decode? behind
             some (c :: more)) = some text) :
    ∃ c more, scalar? least code = some c ∧ decode? behind = some more ∧ text = c :: more := by
  simp only [Option.bind_eq_bind, Option.bind_eq_some_iff] at h
  obtain ⟨c, hcode, more, hmore, htext⟩ := h
  exact ⟨c, more, hcode, hmore, (Option.some.inj htext).symm⟩

theorem decode?_cons_eq_some {b : UInt8} {text : List Char} (h : decode? (b :: rest) = some text) :
    ∃ c behind more, b :: rest = String.utf8EncodeChar c ++ behind ∧
      decode? behind = some more ∧ text = c :: more := by
  rw [decode?.eq_def] at h
  dsimp only at h
  split at h
  · rename_i hlead
    obtain ⟨c, more, hcode, hmore, htext⟩ := readChar_eq_some h
    exact ⟨c, rest, more, by rw [encodeChar_one hlead hcode]; rfl, hmore, htext⟩
  split at h
  · cases h
  rename_i b₁ r₁
  obtain ⟨x₁, h₁, h⟩ := Option.bind_eq_some_iff.mp h
  split at h
  · rename_i hlead
    obtain ⟨c, more, hcode, hmore, htext⟩ := readChar_eq_some h
    exact ⟨c, r₁, more, by rw [encodeChar_two hlead h₁ hcode]; rfl, hmore, htext⟩
  split at h
  · cases h
  rename_i b₂ r₂ _
  obtain ⟨x₂, h₂, h⟩ := Option.bind_eq_some_iff.mp h
  split at h
  · rename_i hlead
    obtain ⟨c, more, hcode, hmore, htext⟩ := readChar_eq_some h
    exact ⟨c, r₂, more, by rw [encodeChar_three hlead h₁ h₂ hcode]; rfl, hmore, htext⟩
  split at h
  · cases h
  rename_i b₃ r₃ _ _
  obtain ⟨x₃, h₃, h⟩ := Option.bind_eq_some_iff.mp h
  split at h
  · rename_i hlead
    obtain ⟨c, more, hcode, hmore, htext⟩ := readChar_eq_some h
    exact ⟨c, r₃, more, by rw [encodeChar_four hlead h₁ h₂ h₃ hcode]; rfl, hmore, htext⟩
  · cases h

theorem encodeChar_ne_nil (c : Char) : String.utf8EncodeChar c ≠ [] := by
  unfold String.utf8EncodeChar
  dsimp only
  split
  · simp
  split
  · simp
  split <;> simp

theorem encode_cons (c : Char) (text : List Char) :
    encode (c :: text) = String.utf8EncodeChar c ++ encode text := rfl

theorem encode_append (first second : List Char) :
    encode (first ++ second) = encode first ++ encode second :=
  List.flatMap_append

theorem eq_encode_of_decode? {bytes : Bytes} {text : List Char} (h : decode? bytes = some text) :
    bytes = encode text := by
  induction hlength : bytes.length using Nat.strongRecOn generalizing bytes text with
  | _ length ih =>
    cases bytes with
    | nil =>
        cases h
        rfl
    | cons b rest =>
        obtain ⟨c, behind, more, hbytes, hmore, rfl⟩ := decode?_cons_eq_some h
        have hshorter : behind.length < length := by
          have hpos := List.length_pos_iff.mpr (encodeChar_ne_nil c)
          rw [← hlength, hbytes, List.length_append]
          omega
        rw [hbytes, ih _ hshorter hmore rfl, encode_cons]

theorem decode?_eq_some_iff {bytes : Bytes} {text : List Char} :
    decode? bytes = some text ↔ bytes = encode text :=
  ⟨eq_encode_of_decode?, fun h => h ▸ decode?_encode text⟩

theorem text?_eq_some_iff {bytes : Bytes} {text : String} :
    text? bytes = some text ↔ bytes = bytesOf text := by
  rw [text?, Option.map_eq_some_iff]
  constructor
  · rintro ⟨characters, hread, rfl⟩
    rw [bytesOf, String.toList_ofList]
    exact eq_encode_of_decode? hread
  · rintro rfl
    exact ⟨text.toList, decode?_encode _, String.ofList_toList⟩

theorem bytesOf_append (first second : String) :
    bytesOf (first ++ second) = bytesOf first ++ bytesOf second := by
  rw [bytesOf, String.toList_append, encode_append]
  rfl

theorem bytesOf_inj {first second : String} : bytesOf first = bytesOf second ↔ first = second := by
  rw [← text?_eq_some_iff, text?_bytesOf, Option.some.injEq]

/-! ## Texts among bytes -/

def IsText (bytes : Bytes) : Prop := ∃ text, bytes = encode text

theorem isText_iff {bytes : Bytes} : IsText bytes ↔ (text? bytes).isSome = true := by
  rw [text?, Option.isSome_map, Option.isSome_iff_exists]
  simp only [IsText, decode?_eq_some_iff]

instance (bytes : Bytes) : Decidable (IsText bytes) := decidable_of_iff _ isText_iff.symm

theorem isText_bytesOf (text : String) : IsText (bytesOf text) := ⟨text.toList, rfl⟩

theorem IsText.exists_string {bytes : Bytes} (h : IsText bytes) :
    ∃ text, bytes = bytesOf text := by
  obtain ⟨characters, rfl⟩ := h
  exact ⟨String.ofList characters, by rw [bytesOf, String.toList_ofList]⟩

namespace IsText

variable {first second bytes : Bytes}

theorem nil : IsText [] := ⟨[], rfl⟩

theorem append (hfirst : IsText first) (hsecond : IsText second) : IsText (first ++ second) := by
  obtain ⟨text, rfl⟩ := hfirst
  obtain ⟨more, rfl⟩ := hsecond
  exact ⟨text ++ more, (encode_append text more).symm⟩

theorem decode?_append (text : List Char) (bytes : Bytes) :
    decode? (encode text ++ bytes) = (decode? bytes).map (text ++ ·) := by
  induction text with
  | nil => simp [encode]
  | cons c rest ih =>
      rw [encode_cons, List.append_assoc, decode?_encodeChar, ih, Option.map_map]
      rfl

theorem of_append (hfirst : IsText first) (h : IsText (first ++ second)) : IsText second := by
  obtain ⟨text, rfl⟩ := hfirst
  obtain ⟨whole, hwhole⟩ := h
  have hread := decode?_eq_some_iff.mpr hwhole
  rw [decode?_append, Option.map_eq_some_iff] at hread
  obtain ⟨more, hmore, -⟩ := hread
  exact ⟨more, eq_encode_of_decode? hmore⟩

theorem ascii (h : ∀ byte ∈ bytes, byte.toNat < 0x80) : IsText bytes := by
  induction bytes with
  | nil => exact nil
  | cons b rest ih =>
      rw [List.forall_mem_cons] at h
      have hvalid : (b.toNat).isValidChar := .inl (by omega)
      obtain ⟨c, hc⟩ : ∃ c, scalar? 0 b.toNat = some c :=
        ⟨_, by rw [scalar?, dif_pos hvalid, if_pos (Nat.zero_le _)]⟩
      have hbyte : IsText [b] := ⟨[c], by simp [encode, encodeChar_one h.1 hc]⟩
      exact hbyte.append (ih h.2)

theorem encodeChar_of_mem_ascii {b : UInt8} (hmem : b ∈ String.utf8EncodeChar c)
    (hascii : b.toNat < 0x80) : String.utf8EncodeChar c = [b] := by
  have hcode : c.val.toNat = c.toNat := rfl
  have hbound := toNat_le c
  revert hmem
  rw [String.utf8EncodeChar, hcode]
  split
  · intro hmem
    rw [List.mem_singleton.mp hmem]
  split
  · intro hmem
    have h₁ := toNat_ofNat_byte (n := c.toNat / 64 % 32 + 192) (by omega)
    have h₂ := toNat_ofNat_byte (n := c.toNat % 64 + 128) (by omega)
    simp only [List.mem_cons, List.not_mem_nil, or_false] at hmem
    rcases hmem with rfl | rfl <;> omega
  split
  · intro hmem
    have h₁ := toNat_ofNat_byte (n := c.toNat / 4096 % 16 + 224) (by omega)
    have h₂ := toNat_ofNat_byte (n := c.toNat / 64 % 64 + 128) (by omega)
    have h₃ := toNat_ofNat_byte (n := c.toNat % 64 + 128) (by omega)
    simp only [List.mem_cons, List.not_mem_nil, or_false] at hmem
    rcases hmem with rfl | rfl | rfl <;> omega
  · intro hmem
    have h₁ := toNat_ofNat_byte (n := c.toNat / 262144 % 8 + 240) (by omega)
    have h₂ := toNat_ofNat_byte (n := c.toNat / 4096 % 64 + 128) (by omega)
    have h₃ := toNat_ofNat_byte (n := c.toNat / 64 % 64 + 128) (by omega)
    have h₄ := toNat_ofNat_byte (n := c.toNat % 64 + 128) (by omega)
    simp only [List.mem_cons, List.not_mem_nil, or_false] at hmem
    rcases hmem with rfl | rfl | rfl | rfl <;> omega

theorem around_ascii {b : UInt8} (h : IsText (first ++ b :: second)) (hascii : b.toNat < 0x80) :
    IsText first ∧ IsText second := by
  obtain ⟨text, htext⟩ := h
  induction text generalizing first with
  | nil => simp [encode] at htext
  | cons c more ih =>
      rw [encode_cons, List.append_eq_append_iff] at htext
      have hc : IsText (String.utf8EncodeChar c) := ⟨[c], by simp [encode]⟩
      rcases htext with ⟨behind, hchar, hmore⟩ | ⟨before, rfl, hmore⟩
      · cases behind with
        | nil =>
            have hrest : [] ++ b :: second = encode more := by simpa using hmore
            rw [List.append_nil] at hchar
            exact ⟨hchar ▸ hc, (ih hrest).2⟩
        | cons b' behind =>
            obtain ⟨rfl, rfl⟩ := List.cons_eq_cons.mp hmore
            have hmem : b ∈ String.utf8EncodeChar c := by simp [hchar]
            have hone := encodeChar_of_mem_ascii hmem hascii
            rw [hone, List.singleton_eq_append_iff] at hchar
            simp only [List.cons_eq_cons, reduceCtorEq, and_false, or_false] at hchar
            obtain ⟨rfl, -, rfl⟩ := hchar
            exact ⟨nil, more, rfl⟩
      · obtain ⟨hbefore, hsecond⟩ := ih hmore.symm
        exact ⟨hc.append hbefore, hsecond⟩

end IsText

end FlatExports.Text
