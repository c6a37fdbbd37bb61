import LedgerUri.Proofs.Resource.Id
import Mathlib.Data.List.Induction
import Mathlib.Data.Nat.Digits.Defs

/-!
# Which texts are ids

An id is read from any run of ASCII digits below `2 ^ 64`, however many zeros it starts with, and
written as the shortest such run. Every other text is refused for one of four reasons, and no text
has two of them.

* `IsNumeral`, `placeValue` — runs of digits, and the number that their places add up to;
* `exists_zeros` — a run of digits is the numeral of its number behind zeros;
* `parse_exact` — which texts are ids, of which numbers, and why the others are none.
-/

namespace LedgerUri

namespace Decimal

/-- The number that a run of digits spells, each digit counted by its place. -/
def placeValue (run : List Char) : ℕ :=
  Nat.ofDigits 10 (run.reverse.map fun c => c.toNat - '0'.toNat)

/-- At least one ASCII digit, and nothing else. -/
structure IsNumeral (text : String) : Prop where
  /-- there is something to read -/
  ne_empty : text ≠ ""
  /-- all of it is digits -/
  digits : ∀ c ∈ text.toList, '0' ≤ c ∧ c ≤ '9'

/-- A numeral behind a minus sign. -/
def IsNegative (text : String) : Prop :=
  ∃ run, text = "-" ++ run ∧ IsNumeral run

/-- The second numeral is the first without superfluous zeros. -/
structure Trims (text short : String) : Prop where
  /-- only zeros are taken off, and only at the start -/
  eq : ∃ zeros, text.toList = List.replicate zeros '0' ++ short.toList
  /-- a digit is left -/
  numeral : IsNumeral short
  /-- a zero is left at the start only of zero itself -/
  head : short.toList.head? = some '0' → short = "0"

variable {run : List Char} {c : Char} {text : String} {n d : ℕ}

/-! ## Digits and places -/

theorem isDigit_iff : c.isDigit = true ↔ '0' ≤ c ∧ c ≤ '9' := by
  simp only [Char.isDigit, Char.le_def, Bool.and_eq_true, decide_eq_true_eq]

theorem isNumeral_iff :
    IsNumeral text ↔ text.toList ≠ [] ∧ ∀ c ∈ text.toList, c.isDigit = true := by
  simp only [isDigit_iff, ne_eq, String.toList_eq_nil_iff]
  exact ⟨fun h => ⟨h.ne_empty, h.digits⟩, fun h => ⟨h.1, h.2⟩⟩

theorem value_concat (run : List Char) (c : Char) :
    value (run ++ [c]) = 10 * value run + (c.toNat - '0'.toNat) := by
  rw [value, Nat.ofDigitChars_append, Nat.ofDigitChars_cons, Nat.ofDigitChars_nil]
  rfl

/-- Reading from left to right adds up the places. -/
theorem value_eq_placeValue (run : List Char) : value run = placeValue run := by
  induction run using List.reverseRecOn with
  | nil => rfl
  | append_singleton run c ih =>
    rw [value_concat, ih, placeValue, placeValue, List.reverse_concat, List.map_cons,
      Nat.ofDigits_cons, add_comm]

/-! ## Superfluous zeros -/

/-- The numeral of a digit's value is the digit. -/
theorem digits_of_isDigit (hc : c.isDigit = true) : digits (c.toNat - '0'.toNat) = [c] := by
  have hall : ∀ d < 10, Nat.digitChar d = Char.ofNat (d + '0'.toNat) := by decide
  obtain ⟨hlow, hhigh⟩ := isDigit_iff.1 hc
  have hlow' : '0'.toNat ≤ c.toNat := hlow
  have hhigh' : c.toNat ≤ '0'.toNat + 9 := hhigh
  have hlt : c.toNat - '0'.toNat < 10 := by omega
  rw [digits, Nat.toDigits_of_lt_base hlt, hall _ hlt, Nat.sub_add_cancel hlow', Char.ofNat_toNat]

/-- A digit behind the numeral of a number that is not zero makes a numeral. -/
theorem digits_concat (hn : 0 < n) (hc : c.isDigit = true) :
    digits (10 * n + (c.toNat - '0'.toNat)) = digits n ++ [c] := by
  have hlt : c.toNat - '0'.toNat < 10 := by
    have hhigh : c.toNat ≤ '0'.toNat + 9 := (isDigit_iff.1 hc).2
    omega
  rw [digits, ← Nat.toDigits_append_toDigits (by omega) hn hlt, ← digits, ← digits,
    digits_of_isDigit hc]

/-- A run of digits is the numeral of its number behind zeros. -/
theorem exists_zeros (hne : run ≠ []) (h : ∀ c ∈ run, c.isDigit = true) :
    ∃ zeros, run = List.replicate zeros '0' ++ digits (value run) := by
  induction run using List.reverseRecOn with
  | nil => exact absurd rfl hne
  | append_singleton run c ih =>
    have hc : c.isDigit = true := h c (by simp)
    have hrun : ∀ d ∈ run, d.isDigit = true := fun d hd => h d (by simp [hd])
    rw [value_concat]
    rcases Nat.eq_zero_or_pos (value run) with hzero | hpos
    · -- all digits so far are zeros, and none of them is left
      obtain ⟨zeros, hzeros⟩ : ∃ zeros, run = List.replicate zeros '0' := by
        rcases run with _ | ⟨d, ds⟩
        · exact ⟨0, rfl⟩
        · obtain ⟨zeros, heq⟩ := ih (List.cons_ne_nil d ds) hrun
          rw [hzero] at heq
          exact ⟨zeros + 1, heq.trans List.replicate_succ'.symm⟩
      rw [hzero, Nat.mul_zero, Nat.zero_add, digits_of_isDigit hc]
      exact ⟨zeros, by rw [hzeros]⟩
    · have hrun_ne : run ≠ [] := by
        rintro rfl
        exact absurd hpos (Nat.lt_irrefl 0)
      obtain ⟨zeros, heq⟩ := ih hrun_ne hrun
      rw [digits_concat hpos hc]
      exact ⟨zeros, by rw [← List.append_assoc, ← heq]⟩

/-- Only the numeral of zero starts with a zero. -/
theorem eq_zero_of_head?_digits (h : (digits n).head? = some '0') : n = 0 := by
  induction n using Nat.strongRecOn with
  | ind n ih =>
    rcases Nat.lt_or_ge n 10 with hlt | hge
    · have hall : ∀ d < 10, (digits d).head? = some '0' → d = 0 := by decide
      exact hall n hlt h
    · rw [digits, Nat.toDigits_of_base_le (by omega) hge, ← digits,
        List.head?_append_of_ne_nil _ (digits_ne_nil _)] at h
      have hdiv := ih (n / 10) (by omega) h
      omega

/-- A numeral of a number is written for it without superfluous zeros. -/
theorem trims_numeral (h : IsNumeral text) : Trims text (numeral (value text.toList)) := by
  obtain ⟨hne, hdigits⟩ := isNumeral_iff.1 h
  refine ⟨?_, isNumeral_iff.2 ?_, fun hhead => ?_⟩
  · rw [numeral, String.toList_ofList]
    exact exists_zeros hne hdigits
  · rw [numeral, String.toList_ofList]
    exact ⟨digits_ne_nil _, fun c hc => isDigit_of_mem_digits hc⟩
  · rw [numeral, String.toList_ofList] at hhead
    rw [eq_zero_of_head?_digits hhead]
    rfl

/-! ## Signs -/

theorem IsNegative.ne_empty (h : IsNegative text) : text ≠ "" := by
  obtain ⟨run, rfl, -⟩ := h
  simp

/-- No numeral starts with a sign. -/
theorem IsNegative.not_isNumeral (h : IsNegative text) : ¬ IsNumeral text := by
  obtain ⟨run, rfl, -⟩ := h
  intro hnumeral
  have hdigit := (isNumeral_iff.1 hnumeral).2 '-' (by simp)
  cases hdigit

end Decimal

namespace ResourceId

open Decimal

variable {text : String} {id : ResourceId}

theorem toList_minus_append (run : String) : ("-" ++ run).toList = '-' :: run.toList := by
  rw [String.toList_append]
  rfl

theorem isNegativeNumeral_iff : isNegativeNumeral text.toList = true ↔ IsNegative text := by
  constructor
  · intro h
    unfold isNegativeNumeral at h
    split at h
    · next d ds heq =>
      refine ⟨String.ofList (d :: ds), ?_, isNumeral_iff.2 ?_⟩
      · rw [← String.toList_inj, heq, toList_minus_append, String.toList_ofList]
      · rw [String.toList_ofList]
        exact ⟨List.cons_ne_nil d ds, List.all_eq_true.1 h⟩
    · cases h
  · rintro ⟨run, rfl, hrun⟩
    obtain ⟨hne, hdigits⟩ := isNumeral_iff.1 hrun
    obtain ⟨d, ds, hcons⟩ := List.exists_cons_of_ne_nil hne
    rw [toList_minus_append, hcons, isNegativeNumeral, ← hcons]
    exact List.all_eq_true.2 hdigits

/-- Why a text is no id. -/
inductive Refused (text : String) : IdError → Prop
  /-- there is nothing to read -/
  | empty (h : text = "") : Refused text .noDigits
  /-- a minus sign and digits -/
  | negative (h : IsNegative text) : Refused text (.negative text)
  /-- digits of a number that is too large -/
  | tooLarge (h : IsNumeral text) (hlarge : UInt64.size ≤ placeValue text.toList) :
      Refused text (.tooLarge text)
  /-- anything else -/
  | other (hne : text ≠ "") (hneg : ¬ IsNegative text) (hnumeral : ¬ IsNumeral text) :
      Refused text (.notInteger text)

/-- A text is refused for what is wrong with it. -/
theorem parse_eq_error_iff {error : IdError} : parse text = .error error ↔ Refused text error := by
  have hempty : text.toList.isEmpty = true ↔ text = "" := by simp
  have hnumeral (hne : text ≠ "") : text.toList.all Char.isDigit = true ↔ IsNumeral text := by
    rw [isNumeral_iff, List.all_eq_true, ne_eq, String.toList_eq_nil_iff, and_iff_right hne]
  rw [parse]
  constructor
  · intro h
    -- the checks in their order, so that each reason excludes the ones before it
    split at h
    · next hnil =>
      obtain rfl := Except.error.inj h
      exact .empty (hempty.1 hnil)
    · next hcons =>
      have hne : text ≠ "" := fun heq => hcons (hempty.2 heq)
      split at h
      · next hneg =>
        obtain rfl := Except.error.inj h
        exact .negative (isNegativeNumeral_iff.1 hneg)
      · next hneg =>
        split at h
        · next hdigits =>
          split at h
          · cases h
          · next hlarge =>
            obtain rfl := Except.error.inj h
            refine .tooLarge ((hnumeral hne).1 hdigits) ?_
            rw [← value_eq_placeValue]
            exact ofNat?_eq_none_iff.1 hlarge
        · next hother =>
          obtain rfl := Except.error.inj h
          exact .other hne (fun hn => hneg (isNegativeNumeral_iff.2 hn))
            (fun hn => hother ((hnumeral hne).2 hn))
  · intro h
    cases h with
    | empty h => rw [if_pos (hempty.2 h)]
    | negative h =>
      rw [if_neg (mt hempty.1 h.ne_empty), if_pos (isNegativeNumeral_iff.2 h)]
    | tooLarge h hlarge =>
      have hneg : ¬ IsNegative text := fun hn => hn.not_isNumeral h
      rw [if_neg (mt hempty.1 h.ne_empty), if_neg (mt isNegativeNumeral_iff.1 hneg),
        if_pos ((hnumeral h.ne_empty).2 h), value_eq_placeValue, ofNat?_eq_none_iff.2 hlarge]
    | other hne hneg hother =>
      rw [if_neg (mt hempty.1 hne), if_neg (mt isNegativeNumeral_iff.1 hneg),
        if_neg (mt (hnumeral hne).1 hother)]

/-- A text is read as the number that its places add up to. -/
theorem exists_parse_iff {n : ℕ} :
    (∃ id, parse text = .ok id ∧ id.toNat = n) ↔
      IsNumeral text ∧ placeValue text.toList = n ∧ n < 2 ^ 64 := by
  constructor
  · rintro ⟨id, h, rfl⟩
    obtain ⟨hne, hdigits, hvalue⟩ := parse_eq_ok_iff.1 h
    exact ⟨isNumeral_iff.2 ⟨hne, hdigits⟩, (value_eq_placeValue _).symm.trans hvalue, id.toNat_lt⟩
  · rintro ⟨hnumeral, rfl, hlt⟩
    obtain ⟨hne, hdigits⟩ := isNumeral_iff.1 hnumeral
    obtain ⟨id, hid⟩ := exists_toNat_eq hlt
    refine ⟨id, parse_eq_ok_iff.2 ⟨hne, hdigits, ?_⟩, hid⟩
    rw [value_eq_placeValue, hid]

/-- What is read is written without the superfluous zeros. -/
theorem trims_text_of_parse (h : parse text = .ok id) : Trims text id.text := by
  obtain ⟨hne, hdigits, hvalue⟩ := parse_eq_ok_iff.1 h
  rw [ResourceId.text, ← hvalue]
  exact trims_numeral (isNumeral_iff.2 ⟨hne, hdigits⟩)

/-- **Ids are read exactly.** A text is an id when it is a run of digits, of any length, whose
places add up to less than `2 ^ 64`, and it is that id. Any other text is refused for the one of
four reasons that fits it, and what is reported carries the whole text. An id is read back from what
is written for it, and what was read is written without superfluous zeros. -/
theorem parse_exact (text : String) :
    (∀ n, (∃ id, parse text = .ok id ∧ id.toNat = n) ↔
      IsNumeral text ∧ placeValue text.toList = n ∧ n < 2 ^ 64) ∧
    (parse text = .error .noDigits ↔ text = "") ∧
    (∀ value, parse text = .error (.negative value) ↔ value = text ∧ IsNegative text) ∧
    (∀ value, parse text = .error (.tooLarge value) ↔
      value = text ∧ IsNumeral text ∧ 2 ^ 64 ≤ placeValue text.toList) ∧
    (∀ value, parse text = .error (.notInteger value) ↔
      value = text ∧ text ≠ "" ∧ ¬ IsNegative text ∧ ¬ IsNumeral text) ∧
    (∀ id, parse text = .ok id → Trims text id.text) ∧
    ∀ id : ResourceId, parse id.text = .ok id := by
  simp only [parse_eq_error_iff]
  refine ⟨fun n => exists_parse_iff, ⟨?_, .empty⟩, fun value => ⟨?_, ?_⟩, fun value => ⟨?_, ?_⟩,
    fun value => ⟨?_, ?_⟩, fun id => trims_text_of_parse, parse_text⟩
  · rintro (hempty | _)
    exact hempty
  · rintro (_ | hneg)
    exact ⟨rfl, hneg⟩
  · rintro ⟨rfl, hneg⟩
    exact .negative hneg
  · rintro (_ | _ | ⟨hnumeral, hlarge⟩)
    exact ⟨rfl, hnumeral, hlarge⟩
  · rintro ⟨rfl, hnumeral, hlarge⟩
    exact .tooLarge hnumeral hlarge
  · rintro (_ | _ | _ | ⟨hne, hneg, hnumeral⟩)
    exact ⟨rfl, hne, hneg, hnumeral⟩
  · rintro ⟨rfl, hne, hneg, hnumeral⟩
    exact .other hne hneg hnumeral

/-- Zeros at the start are read and not written. A number of 65 bits stays too large behind them, a
negative zero is negative, and a plus sign makes no integer. -/
theorem parse_exact_leadingZeros :
    parse "007" = .ok ⟨7⟩ ∧ Trims "007" (mk 7).text ∧
    parse "0018446744073709551616" = .error (.tooLarge "0018446744073709551616") ∧
    parse "-0" = .error (.negative "-0") ∧ parse "+7" = .error (.notInteger "+7") := by
  have hseven : parse "007" = .ok ⟨7⟩ := rfl
  obtain ⟨-, -, -, -, -, htrims, -⟩ := parse_exact "007"
  obtain ⟨-, -, -, hlarge, -⟩ := parse_exact "0018446744073709551616"
  obtain ⟨-, -, hnegative, -⟩ := parse_exact "-0"
  obtain ⟨-, -, -, -, hother, -⟩ := parse_exact "+7"
  refine ⟨hseven, htrims _ hseven, (hlarge _).2 ⟨rfl, ⟨by decide, by simp⟩, by decide⟩,
    (hnegative _).2 ⟨rfl, "0", rfl, by decide, by simp⟩, (hother _).2 ⟨rfl, by decide, ?_, ?_⟩⟩
  · rw [← isNegativeNumeral_iff]
    decide
  · intro hnumeral
    have hplus := hnumeral.digits '+' (by simp)
    exact absurd hplus (by decide)

end ResourceId

end LedgerUri
