import LedgerUri.Base64.Codec

/-!
# Reading what was written in groups

Regrouping eight bits into six and back loses nothing: each byte comes back from the two symbols
that share its bits. So decoding inverts encoding, and what is written never ends in a single
symbol.

* `decode?_encode` — the bytes come back;
* `has_of_mem_encode`, `length_encode_mod_ne` — what is written is made of symbols, in whole bytes;
* `exists_decode?` — whatever is made of symbols in that way is decoded.
-/

namespace LedgerUri.Base64

variable {α : Alphabet}

/-! ## One byte -/

/-- A byte is read back from its six high bits and its two low ones. -/
theorem firstByte_split (a : UInt8) (low : Nat) (hlow : low < 16) :
    firstByte (a.toNat / 4) (a.toNat % 4 * 16 + low) = a := by
  have hbits : a.toNat / 4 * 4 + (a.toNat % 4 * 16 + low) / 16 = a.toNat := by omega
  rw [firstByte, hbits, UInt8.ofNat_toNat]

/-- A byte is read back from its four high bits and its four low ones. -/
theorem secondByte_split (b : UInt8) (high low : Nat) (hlow : low < 4) :
    secondByte (high * 16 + b.toNat / 16) (b.toNat % 16 * 4 + low) = b := by
  have hbyte := b.toNat_lt
  have hbits : (high * 16 + b.toNat / 16) % 16 * 16 + (b.toNat % 16 * 4 + low) / 4 = b.toNat := by
    omega
  rw [secondByte, hbits, UInt8.ofNat_toNat]

/-- A byte is read back from its two high bits and its six low ones. -/
theorem thirdByte_split (c : UInt8) (high : Nat) :
    thirdByte (high * 4 + c.toNat / 64) (c.toNat % 64) = c := by
  have hbyte := c.toNat_lt
  have hbits : (high * 4 + c.toNat / 64) % 4 * 64 + c.toNat % 64 = c.toNat := by omega
  rw [thirdByte, hbits, UInt8.ofNat_toNat]

/-! ## Byte strings -/

theorem has_symbol {v : Nat} (h : v < 64) : α.has (α.symbol v) = true := by
  rw [Alphabet.has, α.value?_symbol h]
  rfl

/-- What is written is made of symbols. -/
theorem has_of_mem_encode (bytes : List UInt8) : ∀ c ∈ encode α bytes, α.has c = true := by
  fun_induction encode α bytes with
  | case1 a b c rest ih =>
    have ha := a.toNat_lt
    have hb := b.toNat_lt
    have hc := c.toNat_lt
    simp only [List.forall_mem_cons]
    exact ⟨has_symbol (by omega), has_symbol (by omega), has_symbol (by omega),
      has_symbol (by omega), ih⟩
  | case2 a b =>
    have ha := a.toNat_lt
    have hb := b.toNat_lt
    simp only [List.forall_mem_cons]
    exact ⟨has_symbol (by omega), has_symbol (by omega), has_symbol (by omega), by simp⟩
  | case3 a =>
    have ha := a.toNat_lt
    simp only [List.forall_mem_cons]
    exact ⟨has_symbol (by omega), has_symbol (by omega), by simp⟩
  | case4 => exact fun c hc => absurd hc List.not_mem_nil

/-- What is written does not end in a single symbol. -/
theorem length_encode_mod_ne (bytes : List UInt8) : (encode α bytes).length % 4 ≠ 1 := by
  fun_induction encode α bytes with
  | case1 a b c rest ih =>
    simp only [List.length_cons]
    omega
  | case2 a b => simp
  | case3 a => simp
  | case4 => simp

/-- **Decoding inverts encoding.** -/
theorem decode?_encode (bytes : List UInt8) : decode? α (encode α bytes) = some bytes := by
  fun_induction encode α bytes with
  | case1 a b c rest ih =>
    have ha := a.toNat_lt
    have hb := b.toNat_lt
    have hc := c.toNat_lt
    have h₁ := α.value?_symbol (v := a.toNat / 4) (by omega)
    have h₂ := α.value?_symbol (v := a.toNat % 4 * 16 + b.toNat / 16) (by omega)
    have h₃ := α.value?_symbol (v := b.toNat % 16 * 4 + c.toNat / 64) (by omega)
    have h₄ := α.value?_symbol (v := c.toNat % 64) (by omega)
    have hfirst := firstByte_split a (b.toNat / 16) (by omega)
    have hsecond := secondByte_split b (a.toNat % 4) (c.toNat / 64) (by omega)
    have hthird := thirdByte_split c (b.toNat % 16)
    simp only [decode?, h₁, h₂, h₃, h₄, ih, bind, Option.bind, hfirst, hsecond, hthird]
    rfl
  | case2 a b =>
    have ha := a.toNat_lt
    have hb := b.toNat_lt
    have h₁ := α.value?_symbol (v := a.toNat / 4) (by omega)
    have h₂ := α.value?_symbol (v := a.toNat % 4 * 16 + b.toNat / 16) (by omega)
    have h₃ := α.value?_symbol (v := b.toNat % 16 * 4) (by omega)
    have hfirst := firstByte_split a (b.toNat / 16) (by omega)
    have hsecond := secondByte_split b (a.toNat % 4) 0 (by omega)
    simp only [decode?, h₁, h₂, h₃, bind, Option.bind, hfirst]
    exact congrArg (fun second => some [a, second]) hsecond
  | case3 a =>
    have ha := a.toNat_lt
    have h₁ := α.value?_symbol (v := a.toNat / 4) (by omega)
    have h₂ := α.value?_symbol (v := a.toNat % 4 * 16) (by omega)
    have hfirst := firstByte_split a 0 (by omega)
    simp only [decode?, h₁, h₂, bind, Option.bind]
    exact congrArg (fun first => some [first]) hfirst
  | case4 => rfl

theorem exists_value?_of_has {c : Char} (h : α.has c = true) : ∃ v, α.value? c = some v :=
  Option.isSome_iff_exists.1 h

/-- Symbols are decoded, unless a single one is left over at the end. -/
theorem exists_decode? {symbols : List Char} (hhas : ∀ c ∈ symbols, α.has c = true)
    (hlength : symbols.length % 4 ≠ 1) : ∃ bytes, decode? α symbols = some bytes := by
  fun_induction decode? α symbols with
  | case1 c₁ c₂ c₃ c₄ rest ih =>
    simp only [List.forall_mem_cons] at hhas
    obtain ⟨hc₁, hc₂, hc₃, hc₄, hrest⟩ := hhas
    obtain ⟨v₁, h₁⟩ := exists_value?_of_has hc₁
    obtain ⟨v₂, h₂⟩ := exists_value?_of_has hc₂
    obtain ⟨v₃, h₃⟩ := exists_value?_of_has hc₃
    obtain ⟨v₄, h₄⟩ := exists_value?_of_has hc₄
    have hrestlength : rest.length % 4 ≠ 1 := by
      simp only [List.length_cons] at hlength
      omega
    obtain ⟨bytes, hbytes⟩ := ih hrest hrestlength
    simp [h₁, h₂, h₃, h₄, hbytes]
  | case2 c₁ c₂ c₃ =>
    simp only [List.forall_mem_cons] at hhas
    obtain ⟨hc₁, hc₂, hc₃, -⟩ := hhas
    obtain ⟨v₁, h₁⟩ := exists_value?_of_has hc₁
    obtain ⟨v₂, h₂⟩ := exists_value?_of_has hc₂
    obtain ⟨v₃, h₃⟩ := exists_value?_of_has hc₃
    simp [h₁, h₂, h₃]
  | case3 c₁ c₂ =>
    simp only [List.forall_mem_cons] at hhas
    obtain ⟨hc₁, hc₂, -⟩ := hhas
    obtain ⟨v₁, h₁⟩ := exists_value?_of_has hc₁
    obtain ⟨v₂, h₂⟩ := exists_value?_of_has hc₂
    simp [h₁, h₂]
  | case4 c => exact absurd rfl hlength
  | case5 => exact ⟨[], rfl⟩

end LedgerUri.Base64
