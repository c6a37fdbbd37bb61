import LedgerUri.Proofs.Base64.Groups
import LedgerUri.Proofs.Base64.UrlSafe

/-!
# What keys say, exactly

A byte string is written in one way, but read from several texts: reading does not look at the bits
of the last symbol that carry nothing. Which texts are read, what is wrong with the others, and
which of the texts is the one that is written can all be told from the characters.

* `ReadingOf` — what reading a text comes to, in each case;
* `TextOf` — a text against the bytes that are read from it;
* `decodeText_eq_ok_iff`, `decodeText_eq_error_iff` — keys that are read as text;
* `codec_exact` — all of this, for every byte string and every text.
-/

namespace LedgerUri.Base64.UrlSafe

/-- A letter, a digit, `-` or `_`. -/
def IsSymbol (c : Char) : Prop :=
  c.isAlphanum = true ∨ c = '-' ∨ c = '_'

/-- What reading a text comes to: bytes, or the first thing that is wrong with it. -/
structure ReadingOf (text : String) (result : Except Base64Error (List UInt8)) : Prop where
  /-- symbols are read, unless a single one is left over at the end -/
  ok_iff : (∃ bytes, result = .ok bytes) ↔
    (∀ c ∈ text.toList, IsSymbol c) ∧ text.length % 4 ≠ 1
  /-- the leftmost character that is no symbol is reported, with its place -/
  foreignChar_iff : ∀ c position, result = .error (.foreignChar c position) ↔
    ∃ before after, text.toList = before ++ c :: after ∧ (∀ d ∈ before, IsSymbol d) ∧
      ¬ IsSymbol c ∧ position = before.length
  /-- a wrong length is reported if there is no such character -/
  danglingSymbol_iff : ∀ length, result = .error (.danglingSymbol length) ↔
    (∀ c ∈ text.toList, IsSymbol c) ∧ text.length % 4 = 1 ∧ length = text.length
  /-- any bytes will do -/
  ne_notUtf8 : result ≠ .error .notUtf8

/-- A text against the bytes that are read from it. -/
structure TextOf (bytes : List UInt8) (text : String) : Prop where
  /-- four symbols are three bytes -/
  length_eq : bytes.length = 3 * text.length / 4
  /-- what is written has the length of what was read -/
  length_encode_eq : (encode bytes).length = text.length
  /-- and is read as the same bytes -/
  decode_encode_eq : decode (encode bytes) = .ok bytes
  /-- it is what was read exactly when the bits that carry nothing are zero -/
  encode_eq_iff : encode bytes = text ↔ ZeroTail .urlSafe text.toList

/-! ## Reading bytes -/

/-- The foreign character that is reported is the leftmost one. -/
theorem foreignChar?_eq_some_iff {start position : ℕ} {cs : List Char} {c : Char} :
    foreignChar? start cs = some (c, position) ↔
      ∃ before after, cs = before ++ c :: after ∧
        (∀ d ∈ before, Alphabet.urlSafe.has d = true) ∧ Alphabet.urlSafe.has c = false ∧
        position = start + before.length := by
  induction cs generalizing start with
  | nil => simp [foreignChar?]
  | cons x xs ih =>
    rw [foreignChar?]
    by_cases hx : Alphabet.urlSafe.has x = true
    · rw [if_pos hx, ih]
      constructor
      · rintro ⟨before, after, rfl, hbefore, hc, rfl⟩
        refine ⟨x :: before, after, rfl, List.forall_mem_cons.2 ⟨hx, hbefore⟩, hc, ?_⟩
        rw [List.length_cons]
        omega
      · rintro ⟨_ | ⟨y, before⟩, after, heq, hbefore, hc, rfl⟩
        · obtain ⟨rfl, -⟩ := List.cons.inj heq
          rw [hx] at hc
          cases hc
        · obtain ⟨rfl, rfl⟩ := List.cons.inj heq
          refine ⟨before, after, rfl, (List.forall_mem_cons.1 hbefore).2, hc, ?_⟩
          rw [List.length_cons]
          omega
    · rw [if_neg hx]
      constructor
      · intro h
        obtain ⟨rfl, rfl⟩ := Prod.mk.inj (Option.some.inj h)
        exact ⟨[], xs, rfl, List.forall_mem_nil _, Bool.eq_false_iff.2 hx, rfl⟩
      · rintro ⟨_ | ⟨y, before⟩, after, heq, hbefore, hc, rfl⟩
        · obtain ⟨rfl, -⟩ := List.cons.inj heq
          rfl
        · obtain ⟨rfl, -⟩ := List.cons.inj heq
          exact absurd (List.forall_mem_cons.1 hbefore).1 hx

theorem isSymbol_iff {c : Char} : Alphabet.urlSafe.has c = true ↔ IsSymbol c :=
  has_eq_true_iff

theorem not_isSymbol_iff {c : Char} : Alphabet.urlSafe.has c = false ↔ ¬ IsSymbol c := by
  rw [← isSymbol_iff, Bool.not_eq_true]

section Reading

variable {text : String}

/-- A place of the first foreign character is one before which there are only symbols. -/
theorem foreignChar?_toList_eq_some_iff {c : Char} {position : ℕ} :
    foreignChar? 0 text.toList = some (c, position) ↔
      ∃ before after, text.toList = before ++ c :: after ∧ (∀ d ∈ before, IsSymbol d) ∧
        ¬ IsSymbol c ∧ position = before.length := by
  rw [foreignChar?_eq_some_iff]
  simp only [isSymbol_iff, not_isSymbol_iff, Nat.zero_add]

theorem not_foreign_of_symbols (h : ∀ c ∈ text.toList, IsSymbol c) (c : Char) (position : ℕ) :
    ¬ ∃ before after, text.toList = before ++ c :: after ∧ (∀ d ∈ before, IsSymbol d) ∧
      ¬ IsSymbol c ∧ position = before.length := by
  rintro ⟨before, after, heq, -, hc, -⟩
  apply hc
  apply h
  rw [heq]
  exact List.mem_append_right before List.mem_cons_self

theorem readingOf_ok (hsymbols : ∀ c ∈ text.toList, IsSymbol c) (hlength : text.length % 4 ≠ 1)
    (bytes : List UInt8) : ReadingOf text (.ok bytes) := by
  constructor
  · exact iff_of_true ⟨bytes, rfl⟩ ⟨hsymbols, hlength⟩
  · intro c position
    exact iff_of_false (by simp) (not_foreign_of_symbols hsymbols c position)
  · intro length
    exact iff_of_false (by simp) fun h => hlength h.2.1
  · simp

theorem readingOf_danglingSymbol (hsymbols : ∀ c ∈ text.toList, IsSymbol c)
    (hlength : text.length % 4 = 1) :
    ReadingOf text (.error (.danglingSymbol text.length)) := by
  constructor
  · exact iff_of_false (by simp) fun h => h.2 hlength
  · intro c position
    exact iff_of_false (by simp) (not_foreign_of_symbols hsymbols c position)
  · intro length
    rw [and_iff_right hsymbols, and_iff_right hlength]
    simp [eq_comm]
  · simp

theorem readingOf_foreignChar {c : Char} {position : ℕ}
    (h : foreignChar? 0 text.toList = some (c, position)) :
    ReadingOf text (.error (.foreignChar c position)) := by
  have hsymbols : ¬ ∀ c ∈ text.toList, IsSymbol c := by
    intro hall
    exact not_foreign_of_symbols hall c position (foreignChar?_toList_eq_some_iff.1 h)
  constructor
  · exact iff_of_false (by simp) fun h => hsymbols h.1
  · intro d place
    rw [← foreignChar?_toList_eq_some_iff, h]
    simp
  · intro length
    exact iff_of_false (by simp) fun h => hsymbols h.1
  · simp

end Reading

/-- **Every text is read, or refused for the first thing that is wrong with it.** -/
theorem readingOf_decode (text : String) : ReadingOf text (decode text) := by
  rcases hforeign : foreignChar? 0 text.toList with _ | ⟨c, position⟩
  · have hhas := foreignChar?_eq_none.1 hforeign
    have hsymbols : ∀ c ∈ text.toList, IsSymbol c := by
      intro c hc
      exact isSymbol_iff.1 (hhas c hc)
    by_cases hlength : text.length % 4 = 1
    · have hresult : decode text = .error (.danglingSymbol text.length) := by
        simp only [decode, hforeign, String.length_toList, hlength, if_true]
      rw [hresult]
      exact readingOf_danglingSymbol hsymbols hlength
    · -- symbols in whole bytes leave nothing to refuse
      obtain ⟨bytes, hbytes⟩ := exists_decode? hhas hlength
      rw [decode_eq_ok_iff.2 ⟨hhas, hlength, hbytes⟩]
      exact readingOf_ok hsymbols hlength bytes
  · have hresult : decode text = .error (.foreignChar c position) := by
      simp only [decode, hforeign]
    rw [hresult]
    exact readingOf_foreignChar hforeign

/-- What was read is written in the same length, and as the same text when its tail is zero. -/
theorem textOf_of_decode {text : String} {bytes : List UInt8} (h : decode text = .ok bytes) :
    TextOf bytes text := by
  obtain ⟨-, -, hdecode⟩ := decode_eq_ok_iff.1 h
  have hcarries := decode?_eq_some_iff.1 hdecode
  refine ⟨?_, ?_, decode_encode bytes, ?_⟩
  · rw [hcarries.length_eq, String.length_toList]
  · rw [encode, String.length_ofList, hcarries.length_encode_eq, String.length_toList]
  · rw [← hcarries.encode_eq_iff, ← String.toList_inj, encode, String.toList_ofList]

/-! ## Reading text -/

/-- A key is read as a text when its bytes are the UTF-8 of that text. -/
theorem decodeText_eq_ok_iff {text decoded : String} :
    decodeText text = .ok decoded ↔ decode text = .ok (Text.utf8 decoded) := by
  rw [decodeText, bind_eq_ok_iff]
  constructor
  · rintro ⟨bytes, hbytes, h⟩
    rcases hread : Text.ofUtf8? bytes with _ | found
    · simp [hread] at h
    · obtain rfl : found = decoded := by simpa [hread] using h
      rw [hbytes, Text.ofUtf8?_eq_some_iff.1 hread]
  · intro h
    have hread : Text.ofUtf8? (Text.utf8 decoded) = some decoded :=
      Text.ofUtf8?_eq_some_iff.2 rfl
    exact ⟨_, h, by rw [hread]⟩

/-- Reading as text fails where reading bytes does, and when the bytes encode no text. -/
theorem decodeText_eq_error_iff {text : String} {error : Base64Error} :
    decodeText text = .error error ↔ decode text = .error error ∨
      error = .notUtf8 ∧ ∃ bytes, decode text = .ok bytes ∧
        ∀ decoded, bytes ≠ Text.utf8 decoded := by
  rw [decodeText]
  rcases decode text with e | bytes
  · simp [bind, Except.bind]
  · have hnone : Text.ofUtf8? bytes = none ↔ ∀ decoded, bytes ≠ Text.utf8 decoded :=
      Text.ofUtf8?_eq_none_iff
    rcases hread : Text.ofUtf8? bytes with _ | found
    · simp [bind, Except.bind, hread, ← hnone, eq_comm]
    · simp [bind, Except.bind, hread, ← hnone]

/-! ## All of it -/

/-- **The codec is exact.** What is written for bytes is made of symbols, as few as will do, and is
read as these bytes. Every text is read as its symbols say, or refused for the first thing that is
wrong with it. What was read is written in the same length, and as the same text exactly when the
bits that carry nothing are zero. Text goes through the codec as its UTF-8. -/
theorem codec_exact :
    (∀ bytes, (∀ c ∈ (encode bytes).toList, IsSymbol c) ∧
      (encode bytes).length = (4 * bytes.length + 2) / 3 ∧ decode (encode bytes) = .ok bytes) ∧
    (∀ text, ReadingOf text (decode text)) ∧
    (∀ text bytes, decode text = .ok bytes → TextOf bytes text) ∧
    (∀ text, decodeText (encodeText text) = .ok text) ∧
    ∀ text,
      (∀ decoded, decodeText text = .ok decoded ↔ decode text = .ok (Text.utf8 decoded)) ∧
      ∀ error, decodeText text = .error error ↔ decode text = .error error ∨
        error = .notUtf8 ∧ ∃ bytes, decode text = .ok bytes ∧
          ∀ decoded, bytes ≠ Text.utf8 decoded := by
  refine ⟨?_, readingOf_decode, fun text bytes => textOf_of_decode, ?_, ?_⟩
  · intro bytes
    refine ⟨?_, ?_, decode_encode bytes⟩
    · intro c hc
      rw [encode, String.toList_ofList] at hc
      exact isSymbol_iff.1 (has_of_mem_encode bytes c hc)
    · rw [encode, String.length_ofList, length_encode]
  · intro text
    rw [decodeText_eq_ok_iff]
    exact decode_encode (Text.utf8 text)
  · intro text
    exact ⟨fun decoded => decodeText_eq_ok_iff, fun error => decodeText_eq_error_iff⟩

/-- One byte is read from two texts. Only the first has zeros for the bits that carry nothing, and
so it is the one that is written. -/
theorem codec_exact_twoSpellings :
    decode "YQ" = .ok [97] ∧ decode "YR" = .ok [97] ∧ encode [97] = "YQ" ∧ encode [97] ≠ "YR" := by
  have hcanonical : decode "YQ" = .ok [97] := rfl
  have hother : decode "YR" = .ok [97] := rfl
  obtain ⟨-, -, htext, -⟩ := codec_exact
  refine ⟨hcanonical, hother, ?_, ?_⟩
  · rw [(htext "YQ" [97] hcanonical).encode_eq_iff]
    intro last hlast v hv
    obtain rfl : 'Q' = last := Option.some.inj hlast
    obtain rfl : 16 = v := Option.some.inj hv
    rfl
  · rw [ne_eq, (htext "YR" [97] hother).encode_eq_iff]
    intro h
    exact absurd (h 'R' rfl 17 rfl) (by decide)

end LedgerUri.Base64.UrlSafe
