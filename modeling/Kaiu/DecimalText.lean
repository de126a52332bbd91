/-
Decimals as text.

The constructor reads the characters from the last one to the first, and skips commas
wherever they are; `operator string` writes the digits from the lowest one, with a comma
between groups of three, and reverses what it has written. The two are compared with
numerals: what is left of a string without its commas, and the numeral of a number
without leading zeros, as the library writes it. Where the commas belong is a function
of the numeral, `group`, which counts the digits that are still to come; the loop
counts those that have been copied, which are the same ones.
-/
import Kaiu.DecimalObjects

set_option autoImplicit false

namespace Kaiu
namespace decimal

open Exit Positional

/-! ## `operator string` -/

/-- The `char` that a value is converted to. -/
def to_char (x : ℤ) : Char :=
  Char.ofNat (x % 256).toNat

/-- The body of the loop of `operator string`: `s` and `copied`. -/
def push_digit (s : List Char × ℕ) (digit : ℤ) : List Char × ℕ :=
  let t := if s.2 > 0 ∧ s.2 % 3 = 0 then s.1 ++ [','] else s.1
  (t ++ [to_char (digit + '0'.toNat)], s.2 + 1)

/-- `operator string`. -/
def to_string (a : decimal) : List Char :=
  (a.digits.foldl push_digit ([], 0)).1.reverse

/-! ## Numerals -/

/-- A character is one of `0` to `9`. -/
def IsDigit (c : Char) : Prop := '0' ≤ c ∧ c ≤ '9'

/-- What is left of a string without its commas. -/
def without_commas (s : List Char) : List Char :=
  s.filter (· ≠ ',')

/-- A numeral with commas: one is before each complete group of three low-order digits,
and none at the front. -/
def group : List Char → List Char
  | [] => []
  | c :: s => if s ≠ [] ∧ s.length % 3 = 0 then c :: ',' :: group s else c :: group s

/-- A string is a numeral without leading zeros, with its commas. -/
structure Grouped (s : List Char) : Prop where
  digits : ∀ c ∈ without_commas s, IsDigit c
  nonempty : without_commas s ≠ []
  leading : (without_commas s).length ≠ 1 → (without_commas s).head? ≠ some '0'
  commas : s = group (without_commas s)

example : group "1234567".toList = "1,234,567".toList := by decide

/-- The digit that a character stands for. -/
def digit_of (c : Char) : ℤ := c.toNat - '0'.toNat

/-- The digits of a number, the most significant one first. -/
def numeral (l : List ℤ) : List Char :=
  l.reverse.map fun digit => to_char (digit + '0'.toNat)

section Characters

variable {c : Char} {s : List Char} {d : ℤ}

theorem IsDigit.toNat (h : IsDigit c) : 48 ≤ c.toNat ∧ c.toNat ≤ 57 := h

theorem IsDigit.digit_of (h : IsDigit c) : 0 ≤ digit_of c ∧ digit_of c < 10 := by
  have hc := h.toNat
  have hzero : '0'.toNat = 48 := rfl
  unfold decimal.digit_of
  omega

theorem not_isDigit_comma : ¬ IsDigit ',' := fun h => absurd h.1 (by decide)

theorem IsDigit.ne_comma (h : IsDigit c) : c ≠ ',' := by
  rintro rfl
  exact not_isDigit_comma h

/-- A digit that has been written is one of the ten. -/
theorem to_char_eq (hd : 0 ≤ d ∧ d < 10) : to_char (d + '0'.toNat) = d.toNat.digitChar := by
  have hall : ∀ k : Fin 10, to_char ((k : ℕ) + '0'.toNat) = (k : ℕ).digitChar := by decide
  have hk := hall ⟨d.toNat, by omega⟩
  rwa [Int.toNat_of_nonneg hd.1] at hk

theorem isDigit_to_char (hd : 0 ≤ d ∧ d < 10) : IsDigit (to_char (d + '0'.toNat)) := by
  have hk : (d.toNat.digitChar).toNat = 48 + d.toNat := Nat.toNat_digitChar_of_lt_ten (by omega)
  rw [to_char_eq hd]
  show 48 ≤ (d.toNat.digitChar).toNat ∧ (d.toNat.digitChar).toNat ≤ 57
  omega

theorem digit_of_to_char (hd : 0 ≤ d ∧ d < 10) : digit_of (to_char (d + '0'.toNat)) = d := by
  have hk : (d.toNat.digitChar).toNat = 48 + d.toNat := Nat.toNat_digitChar_of_lt_ten (by omega)
  have hzero : '0'.toNat = 48 := rfl
  rw [to_char_eq hd, digit_of, hk]
  omega

theorem to_char_digit_of (h : IsDigit c) : to_char (digit_of c + '0'.toNat) = c := by
  have hc := h.toNat
  have hmod : ((c.toNat : ℤ) % 256).toNat = c.toNat := by omega
  rw [to_char, digit_of, sub_add_cancel, hmod, Char.ofNat_toNat]

theorem digits_map_digit_of (h : ∀ c ∈ s, IsDigit c) : Digits 10 (s.map digit_of) := by
  intro d hd
  obtain ⟨c, hc, rfl⟩ := List.mem_map.mp hd
  exact (h c hc).digit_of

theorem mem_without_commas : c ∈ without_commas s ↔ c ∈ s ∧ c ≠ ',' := by
  unfold without_commas
  rw [List.mem_filter, decide_eq_true_iff]

theorem without_commas_comma : without_commas (',' :: s) = without_commas s := by
  simp [without_commas]

theorem without_commas_cons (h : c ≠ ',') : without_commas (c :: s) = c :: without_commas s := by
  simp [without_commas, h]

/-- The value of the vector that has been read is that of the numeral. -/
theorem value_map_digit_of (h : ∀ c ∈ s, IsDigit c) :
    value 10 (s.reverse.map digit_of) = Nat.ofDigitChars 10 s 0 := by
  induction s using List.reverseRecOn with
  | nil => rfl
  | append_singleton s c ih =>
    have hc := (h c (by simp)).toNat
    have hs := ih fun c hc => h c (List.mem_append_left _ hc)
    have hzero : '0'.toNat = 48 := rfl
    rw [List.reverse_append, List.reverse_singleton, List.singleton_append, List.map_cons,
      value_cons, hs, Nat.ofDigitChars_append, Nat.ofDigitChars_cons, Nat.ofDigitChars_nil,
      digit_of]
    omega

/-- What is written of what has been read. -/
theorem numeral_map_digit_of (h : ∀ c ∈ s, IsDigit c) :
    numeral (s.reverse.map digit_of) = s := by
  unfold numeral
  rw [← List.map_reverse, List.reverse_reverse, List.map_map]
  refine (List.map_congr_left fun c hc => ?_).trans (List.map_id s)
  exact to_char_digit_of (h c hc)

end Characters

/-! ## Commas -/

theorem without_commas_group {s : List Char} (h : ∀ c ∈ s, IsDigit c) :
    without_commas (group s) = s := by
  induction s with
  | nil => rfl
  | cons c s ih =>
    have hc : c ≠ ',' := (h c (List.mem_cons_self ..)).ne_comma
    have hs := ih fun c hc => h c (List.mem_cons_of_mem _ hc)
    rw [group]
    split
    · rw [without_commas_cons hc, without_commas_comma, hs]
    · rw [without_commas_cons hc, hs]

/-- The loop has copied the digits that come after the one that it looks at. -/
theorem foldl_push_digit (l : List ℤ) :
    l.foldl push_digit ([], 0) = ((group (numeral l)).reverse, l.length) := by
  -- induction on the digits that have been copied
  induction l using List.reverseRecOn with
  | nil => rfl
  | append_singleton l d ih =>
    have hnumeral : numeral (l ++ [d]) = to_char (d + '0'.toNat) :: numeral l := by
      simp [numeral]
    have hlen : (numeral l).length = l.length := by simp [numeral]
    have hnil : numeral l ≠ [] ↔ l.length > 0 := by
      rw [← hlen, gt_iff_lt, List.length_pos_iff]
    rw [List.foldl_append, List.foldl_cons, List.foldl_nil, ih, hnumeral, push_digit, group,
      List.length_append, List.length_singleton, hlen]
    simp only [hnil]
    split
    · simp
    · simp

theorem to_string_eq (a : decimal) : a.to_string = group (numeral a.digits) := by
  unfold to_string
  rw [foldl_push_digit, List.reverse_reverse]

/-- **What is written is the numeral of the number**, without leading zeros. -/
theorem numeral_eq {l : List ℤ} (h : Canonical 10 l) :
    numeral l = Nat.toDigits 10 (value 10 l).toNat := by
  -- induction on the digits, from the lowest one
  induction l with
  | nil => exact absurd rfl h.nonempty
  | cons d l ih =>
    obtain ⟨hd, hl⟩ := h.digits.cons
    have hnumeral : numeral (d :: l) = numeral l ++ [to_char (d + '0'.toNat)] := by
      simp [numeral]
    rw [hnumeral, to_char_eq hd, value_cons]
    by_cases hnil : l = []
    · subst hnil
      rw [value_nil, mul_zero, add_zero, Nat.toDigits_of_lt_base (by omega)]
      rfl
    · have hpos : 0 < l.length := List.length_pos_iff.mpr hnil
      have hpow := Canonical.pow_le (by norm_num) h (by rw [List.length_cons]; omega)
      have hten : (10 : ℤ) ^ 1 ≤ 10 ^ l.length := pow_le_pow_right₀ (by norm_num) hpos
      rw [List.length_cons, Nat.add_sub_cancel, value_cons] at hpow
      have hcanonical : Canonical 10 l := by
        refine ⟨hl, hnil, fun _ htop => h.top (by rw [List.length_cons]; omega) ?_⟩
        rw [List.getLast?_cons, htop]
        rfl
      have hdiv : (d + 10 * value 10 l).toNat / 10 = (value 10 l).toNat := by omega
      have hmod : (d + 10 * value 10 l).toNat % 10 = d.toNat := by omega
      rw [Nat.toDigits_of_base_le (by norm_num) (by omega), hdiv, hmod, ih hcanonical]

/-! ## The constructor -/

/-- The loop of the constructor, where there are only digits and commas. -/
theorem push_chars_ok {s : List Char} (h : ∀ c ∈ s, c ≠ ',' → IsDigit c) (digits : List ℤ) :
    push_chars s digits = .ok (digits ++ (without_commas s).map digit_of) := by
  induction s generalizing digits with
  | nil => simp [push_chars, without_commas]
  | cons c s ih =>
    have hs : ∀ c ∈ s, c ≠ ',' → IsDigit c := fun c hc => h c (List.mem_cons_of_mem _ hc)
    rw [push_chars]
    by_cases hcomma : c = ','
    · subst hcomma
      rw [if_pos rfl, ih hs, without_commas_comma]
    · have hc : IsDigit c := h c (List.mem_cons_self ..) hcomma
      have hd := hc.digit_of
      have hnarrow : narrow (c.toNat - '0'.toNat) = digit_of c :=
        narrow_eq (x := digit_of c) (by omega) (by omega)
      have hrange : '0' ≤ c ∧ c ≤ '9' := hc
      rw [if_neg hcomma, if_pos hrange, ih hs, without_commas_cons hcomma, hnarrow, List.map_cons,
        List.append_assoc, List.singleton_append]

/-- It stops at any other character. -/
theorem push_chars_throws {s : List Char} {c : Char} (hc : c ∈ s) (hcomma : c ≠ ',')
    (hdigit : ¬ IsDigit c) (digits : List ℤ) :
    ∃ what, push_chars s digits = .error (.invalid_argument what) := by
  induction s generalizing digits with
  | nil => cases hc
  | cons c' s ih =>
    rw [push_chars]
    rcases List.mem_cons.mp hc with rfl | hs
    · have hrange : ¬ ('0' ≤ c ∧ c ≤ '9') := hdigit
      rw [if_neg hcomma, if_neg hrange]
      exact ⟨_, rfl⟩
    · split
      · exact ih hs digits
      · split
        · exact ih hs _
        · exact ⟨_, rfl⟩

/-- **What is constructed from digits and commas** has the value of the numeral. -/
theorem of_string_spec {s : List Char} (h : ∀ c ∈ s, c ≠ ',' → IsDigit c) :
    ∃ a, of_string s = .ok a ∧ a.Normal ∧ a.toInt = Nat.ofDigitChars 10 (without_commas s) 0 := by
  have hdigits : ∀ c ∈ without_commas s, IsDigit c := by
    intro c hc
    obtain ⟨hc, hcomma⟩ := mem_without_commas.mp hc
    exact h c hc hcomma
  have hreverse : without_commas s.reverse = (without_commas s).reverse := by
    unfold without_commas
    rw [List.filter_reverse]
  have hpush := push_chars_ok (s := s.reverse)
    (fun c hc => h c (List.mem_reverse.mp hc)) []
  rw [List.nil_append, hreverse] at hpush
  obtain ⟨hnormal, hvalue⟩ := remove_lz_spec (a := ⟨(without_commas s).reverse.map digit_of⟩)
    (digits_map_digit_of fun c hc => hdigits c (List.mem_reverse.mp hc))
  refine ⟨_, ?_, hnormal, hvalue.trans (value_map_digit_of hdigits)⟩
  unfold of_string
  rw [hpush]

theorem of_string_throws {s : List Char} {c : Char} (hc : c ∈ s) (hcomma : c ≠ ',')
    (hdigit : ¬ IsDigit c) : ∃ what, of_string s = .error (.invalid_argument what) := by
  obtain ⟨what, hpush⟩ := push_chars_throws (List.mem_reverse.mpr hc) hcomma hdigit []
  refine ⟨what, ?_⟩
  unfold of_string
  rw [hpush]

/-! ## Round trips -/

variable {a : decimal}

theorem isDigit_numeral {l : List ℤ} (h : Digits 10 l) : ∀ c ∈ numeral l, IsDigit c := by
  intro c hc
  obtain ⟨d, hd, rfl⟩ := List.mem_map.mp hc
  exact isDigit_to_char (h d (List.mem_reverse.mp hd))

/-- What is read of what has been written. -/
theorem map_digit_of_numeral {l : List ℤ} (h : Digits 10 l) :
    (numeral l).reverse.map digit_of = l := by
  unfold numeral
  rw [← List.map_reverse, List.reverse_reverse, List.map_map]
  refine (List.map_congr_left fun d hd => ?_).trans (List.map_id l)
  exact digit_of_to_char (h d hd)

theorem without_commas_to_string (h : a.Digital) :
    without_commas a.to_string = numeral a.digits := by
  rw [to_string_eq, without_commas_group (isDigit_numeral h)]

/-- **A number that is written and read again is the same.** -/
theorem of_string_to_string (h : a.Normal) : of_string a.to_string = .ok a := by
  have hwritten := without_commas_to_string h.digital
  have hdigits := isDigit_numeral h.digital
  have hlegal : ∀ c ∈ a.to_string, c ≠ ',' → IsDigit c := by
    intro c hc hcomma
    refine hdigits c ?_
    rw [← hwritten]
    exact mem_without_commas.mpr ⟨hc, hcomma⟩
  obtain ⟨a', hread, hnormal, hvalue⟩ := of_string_spec hlegal
  rw [hwritten, ← value_map_digit_of hdigits, map_digit_of_numeral h.digital] at hvalue
  have hsame : a'.digits = a.digits := Canonical.ext (by norm_num) hnormal h hvalue
  obtain ⟨digits⟩ := a
  obtain ⟨digits'⟩ := a'
  rw [hread]
  cases hsame
  rfl

theorem grouped_to_string (h : a.Normal) : Grouped a.to_string := by
  have hwritten := without_commas_to_string h.digital
  have hlen : (numeral a.digits).length = a.digits.length := by simp [numeral]
  refine ⟨?_, ?_, ?_, ?_⟩ <;> rw [hwritten]
  · exact isDigit_numeral h.digital
  · rw [← List.length_pos_iff, hlen]
    exact h.length_pos
  · intro hne hzero
    rw [hlen] at hne
    refine h.top hne ?_
    -- the first character is the most significant digit
    unfold numeral at hzero
    rw [List.head?_map, List.head?_reverse, Option.map_eq_some_iff] at hzero
    obtain ⟨d, hd, hchar⟩ := hzero
    have hdigit := h.digits d (List.mem_of_getLast? hd)
    have hd' := digit_of_to_char hdigit
    rw [hchar] at hd'
    rw [hd, ← hd']
    rfl
  · exact to_string_eq a

/-- A string in the grouped form is the text of what it is read as. -/
theorem Grouped.round_trip {s : List Char} (h : Grouped s) :
    ∃ a, of_string s = .ok a ∧ a.to_string = s := by
  obtain ⟨hdigits, hnonempty, hleading, hcommas⟩ := h
  let l := (without_commas s).reverse.map digit_of
  have hcanonical : Canonical 10 l := by
    refine ⟨digits_map_digit_of fun c hc => hdigits c (List.mem_reverse.mp hc), ?_, ?_⟩
    · simpa [l] using hnonempty
    · intro hlen htop
      have hlen : (without_commas s).length ≠ 1 := by simpa [l] using hlen
      refine hleading hlen ?_
      rw [List.getLast?_map, List.getLast?_reverse, Option.map_eq_some_iff] at htop
      obtain ⟨c, hc, hzero⟩ := htop
      have hchar := to_char_digit_of (hdigits c (List.mem_of_head? hc))
      rw [hzero] at hchar
      rw [hc, ← hchar]
      rfl
  have hstring : to_string ⟨l⟩ = s := by
    rw [to_string_eq, numeral_map_digit_of hdigits]
    exact hcommas.symm
  refine ⟨⟨l⟩, ?_, hstring⟩
  rw [← hstring]
  exact of_string_to_string hcanonical

/-- **The text of a decimal.** A string is refused exactly if it has a character other
than the digits and the comma, and otherwise it is read as the numeral that is left
without the commas. A number is written as its numeral with commas, which is read as
the same number; so the strings that are written as they have been read are those in
the grouped form. -/
theorem text_round_trip (s : List Char) :
    ((∃ what, of_string s = .error (.invalid_argument what)) ↔
      ∃ c ∈ s, c ≠ ',' ∧ ¬ IsDigit c) ∧
    ((∀ c ∈ s, c ≠ ',' → IsDigit c) → ∃ a, of_string s = .ok a ∧ a.Normal ∧
      a.toInt = Nat.ofDigitChars 10 (without_commas s) 0) ∧
    (∀ d : decimal, d.Normal → d.to_string = group (Nat.toDigits 10 d.toInt.toNat) ∧
      of_string d.to_string = .ok d) ∧
    ((∃ a, of_string s = .ok a ∧ a.to_string = s) ↔ Grouped s) := by
  refine ⟨⟨fun hthrows => ?_, fun hillegal => ?_⟩, of_string_spec, fun d hd => ⟨?_, ?_⟩,
    fun hround => ?_, Grouped.round_trip⟩
  · by_contra hlegal
    push Not at hlegal
    obtain ⟨what, hwhat⟩ := hthrows
    obtain ⟨a, hread, -⟩ := of_string_spec hlegal
    rw [hread] at hwhat
    cases hwhat
  · obtain ⟨c, hc, hcomma, hdigit⟩ := hillegal
    exact of_string_throws hc hcomma hdigit
  · rw [to_string_eq, numeral_eq hd]
    rfl
  · exact of_string_to_string hd
  · obtain ⟨a, hread, hwritten⟩ := hround
    rw [← hwritten]
    exact grouped_to_string (of_string_normal hread)

end decimal
end Kaiu
