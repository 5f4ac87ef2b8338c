import Courier.Numeral

namespace Courier.Numeral

def Digits (cs : List Char) (n : Nat) : Prop :=
  cs ≠ [] ∧ (∀ c ∈ cs, c.isDigit = true) ∧ Nat.ofDigitChars 10 cs 0 = n

inductive Signed : List Char → Int → Prop
  | bare {cs : List Char} {n : Nat} : Digits cs n → Signed cs n
  | plus {cs : List Char} {n : Nat} : Digits cs n → Signed ('+' :: cs) n
  | minus {cs : List Char} {n : Nat} : Digits cs n → Signed ('-' :: cs) (-n)

def Written (s : String) (n : Int) : Prop :=
  ∃ before cs after, s.toList = before ++ cs ++ after ∧
    (∀ c ∈ before ++ after, Text.isBlank c = true) ∧ Signed cs n

variable {w : Width} {s : String} {cs : List Char} {m : Nat} {n : Int}

theorem isDigit_iff {c : Char} : c.isDigit = true ↔ '0' ≤ c ∧ c ≤ '9' := by
  simp [Char.isDigit, Char.le_def]

theorem digitBelow_ten (c : Char) :
    digitBelow 10 c = if c.isDigit then some (c.toNat - '0'.toNat) else none := by
  have le_iff {c d : Char} : c ≤ d ↔ c.toNat ≤ d.toNat := Iff.rfl
  have zero : '0'.toNat = 48 := rfl
  have nine : '9'.toNat = 57 := rfl
  have a : 'a'.toNat = 97 := rfl
  have A : 'A'.toNat = 65 := rfl
  simp only [digitBelow, digit, isDigit_iff, le_iff, zero, nine, a, A]
  grind [Option.filter]

theorem magnitudeFrom_eq (acc : Nat) (cs : List Char) :
    magnitudeFrom 10 acc cs =
      if cs.all Char.isDigit then some (Nat.ofDigitChars 10 cs acc) else none := by
  induction cs generalizing acc with
  | nil => rfl
  | cons c cs ih =>
    -- Rewritten apart from `simp`, which would leave it to the kernel to unfold both sides.
    rw [magnitudeFrom, digitBelow_ten, Nat.ofDigitChars_cons]
    by_cases digit : c.isDigit = true
    · rw [if_pos digit, Option.bind_some, ih]
      simp [digit]
    · simp [digit]

theorem magnitude_eq_some_iff : magnitude 10 cs = some m ↔ Digits cs m := by
  cases cs with
  | nil => simp [magnitude, Digits]
  | cons c cs =>
    rw [magnitude, magnitudeFrom_eq]
    simp [Digits]

section Signs

variable (read : List Char → Option Nat)

theorem signed_minus (cs : List Char) :
    signed read ('-' :: cs) = (read cs).map fun m : Nat => -(m : Int) := by
  cases h : read cs <;> simp [signed, h]

theorem signed_plus (cs : List Char) :
    signed read ('+' :: cs) = (read cs).map fun m : Nat => (m : Int) := by
  cases h : read cs <;> simp [signed, h]

theorem signed_bare (minus : ¬ ∃ ds, cs = '-' :: ds) (plus : ¬ ∃ ds, cs = '+' :: ds) :
    signed read cs = (read cs).map fun m : Nat => (m : Int) := by
  rw [signed.eq_def]
  split
  · exact absurd ⟨_, rfl⟩ minus
  · exact absurd ⟨_, rfl⟩ plus
  · cases h : read cs <;> simp

end Signs

theorem Digits.unsigned (h : Digits cs m) {c : Char} (sign : c.isDigit = false) :
    ¬ ∃ ds, cs = c :: ds := by
  rintro ⟨ds, rfl⟩
  simpa [sign] using h.2.1 c List.mem_cons_self

theorem decimal?_eq_some_iff : decimal? cs = some n ↔ Signed cs n := by
  constructor
  · intro h
    rw [decimal?] at h
    by_cases minus : ∃ ds, cs = '-' :: ds
    · obtain ⟨ds, rfl⟩ := minus
      rw [signed_minus] at h
      obtain ⟨m, digits, rfl⟩ := Option.map_eq_some_iff.1 h
      exact .minus (magnitude_eq_some_iff.1 digits)
    · by_cases plus : ∃ ds, cs = '+' :: ds
      · obtain ⟨ds, rfl⟩ := plus
        rw [signed_plus] at h
        obtain ⟨m, digits, rfl⟩ := Option.map_eq_some_iff.1 h
        exact .plus (magnitude_eq_some_iff.1 digits)
      · rw [signed_bare _ minus plus] at h
        obtain ⟨m, digits, rfl⟩ := Option.map_eq_some_iff.1 h
        exact .bare (magnitude_eq_some_iff.1 digits)
  · rintro (digits | digits | digits)
    · rw [decimal?, signed_bare _ (digits.unsigned rfl) (digits.unsigned rfl),
        magnitude_eq_some_iff.2 digits]
      rfl
    · rw [decimal?, signed_plus, magnitude_eq_some_iff.2 digits]
      rfl
    · rw [decimal?, signed_minus, magnitude_eq_some_iff.2 digits]
      rfl

theorem not_blank_of_isDigit {c : Char} (digit : c.isDigit = true) : Text.isBlank c = false := by
  rw [Bool.eq_false_iff]
  intro blank
  simp only [Text.isBlank, Bool.or_eq_true, decide_eq_true_eq] at blank
  rcases blank with ((((rfl | rfl) | rfl) | rfl) | rfl) | rfl <;> exact absurd digit (by decide)

theorem Signed.not_blank (h : Signed cs n) : ∀ c ∈ cs, Text.isBlank c = false := by
  have digits {ds : List Char} {m : Nat} (h : Digits ds m) : ∀ c ∈ ds, Text.isBlank c = false :=
    fun c hc => not_blank_of_isDigit (h.2.1 c hc)
  cases h with
  | bare h => exact digits h
  | plus h => exact List.forall_mem_cons.2 ⟨rfl, digits h⟩
  | minus h => exact List.forall_mem_cons.2 ⟨rfl, digits h⟩

theorem Signed.ne_nil (h : Signed cs n) : cs ≠ [] := by
  cases h with
  | bare h => exact h.1
  | plus h => exact List.cons_ne_nil _ _
  | minus h => exact List.cons_ne_nil _ _

theorem Signed.not_comma (h : Signed cs n) : ',' ∉ cs := by
  have digits {ds : List Char} {m : Nat} (h : Digits ds m) : ',' ∉ ds :=
    fun comma => absurd (h.2.1 _ comma) (by decide)
  cases h with
  | bare h => exact digits h
  | plus h => simpa using digits h
  | minus h => simpa using digits h

theorem written_iff : Written s n ↔ Signed (Text.strip Text.isBlank s.toList) n := by
  constructor
  · rintro ⟨before, cs, after, text, blank, h⟩
    have whole : Text.strip Text.isBlank cs = cs :=
      Text.strip_eq_self (fun c hc => h.not_blank c (List.mem_of_mem_head? hc))
        (fun c hc => h.not_blank c (List.mem_of_mem_getLast? hc))
    rwa [text, Text.strip_append blank, whole]
  · intro h
    obtain ⟨before, after, text, blank⟩ := Text.exists_strip Text.isBlank s.toList
    exact ⟨before, _, after, text, blank, h⟩

theorem fits_iff : w.fits n = true ↔ w.low ≤ n ∧ n ≤ w.high := by simp [Width.fits]

/-- A number is read from a text if it is written there and fits the field. -/
theorem ofText?_eq_some_iff : ofText? w s = some n ↔ Written s n ∧ w.low ≤ n ∧ n ≤ w.high := by
  rw [ofText?, Width.narrow, Option.filter_eq_some_iff, decimal?_eq_some_iff, ← written_iff]
  simp [Width.fits]

theorem digits_toDigits (m : Nat) : Digits (Nat.toDigits 10 m) m :=
  ⟨Nat.toDigits_ne_nil, fun _ hc => Nat.isDigit_of_mem_toDigits (by decide) (by decide) hc,
    Nat.ofDigitChars_ten_toDigits⟩

theorem signed_toString (n : Int) : Signed (toString n).toList n := by
  cases n with
  | ofNat m =>
    have text : (toString (Int.ofNat m)).toList = Nat.toDigits 10 m := Nat.toList_repr
    rw [text]
    exact .bare (digits_toDigits m)
  | negSucc m =>
    have text : (toString (Int.negSucc m)).toList = '-' :: Nat.toDigits 10 (m + 1) := by
      change ("-" ++ (m + 1).repr).toList = _
      rw [String.toList_append, Nat.toList_repr]
      rfl
    rw [text]
    exact .minus (digits_toDigits (m + 1))

end Courier.Numeral
