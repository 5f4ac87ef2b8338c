import Courier.Configuration.Parameters
import Courier.Proofs.Encoding
import Courier.Proofs.Numerals
import Mathlib.Data.List.TakeWhile

namespace Courier.Literal

open Numeral

/-- The reader takes what denotes a value, for this value, and refuses all else in one way. -/
structure Exact {ρ α ε : Type} (read : ρ → Except ε α) (denotes : ρ → α → Prop)
    (refusal : ρ → ε) : Prop where
  accepts : ∀ raw a, read raw = .ok a ↔ denotes raw a
  refuses : ∀ raw, (∀ a, ¬ denotes raw a) → read raw = .error (refusal raw)

def words : Bool → List String
  | true => ["true", "yes", "1"]
  | false => ["false", "no", "0"]

def Named (s : String) (b : Bool) : Prop :=
  ∃ before cs after, s.toList = before ++ cs ++ after ∧
    (∀ c ∈ before ++ after, Text.isBlank c = true) ∧ String.ofList (cs.map Char.toLower) ∈ words b

inductive Misfit
  | noDigits
  | outOfRange

def sign : List Char → Int × List Char
  | '-' :: cs => (-1, cs)
  | '+' :: cs => (1, cs)
  | cs => (1, cs)

def leading (cs : List Char) : Except Misfit (Int × List Char) :=
  let (unit, cs) := sign (cs.dropWhile Text.isBlank)
  let digits := cs.takeWhile Char.isDigit
  let n := unit * Nat.ofDigitChars 10 digits 0
  if digits = [] then .error .noDigits
  else if Width.int64.fits n then .ok (n, cs.dropWhile Char.isDigit)
  else .error .outOfRange

def whole (w : Width) (cs : List Char) : Except Misfit Int :=
  match leading cs with
  | .ok (n, rest) => if rest = [] ∧ w.fits n then .ok n else .error .outOfRange
  | .error misfit => .error misfit

def complaint (noun : String) (key raw : Bytes) : Bytes :=
  Bytes.ofText ("Invalid " ++ noun ++ " value for parameter ") ++ key ++ Bytes.ofText ": '" ++ raw ++
    Bytes.ofText "'"

def number (w : Width) (key raw : Bytes) : Except Bytes Int :=
  (whole w (Text.trim raw.plain).toList).mapError fun _ => complaint "numeric" key raw

def boolean (key raw : Bytes) : Except Bytes Bool :=
  match Parameters.ofWord (Text.lower (Text.trim raw.plain)) with
  | some b => .ok b
  | none => .error (complaint "boolean" key raw)

section Exact

variable {ρ ρ' α ε ε' : Type} {read : ρ → Except ε α} {read' : ρ' → Except ε' α}
  {denotes : ρ → α → Prop} {denotes' : ρ' → α → Prop} {refusal : ρ → ε} {refusal' : ρ' → ε'}
  {raw : ρ} {raw' : ρ'}

theorem Exact.of_option {take : ρ → Option α} (h : ∀ raw a, take raw = some a ↔ denotes raw a)
    (taken : ∀ raw a, take raw = some a → read raw = .ok a)
    (left : ∀ raw, take raw = none → read raw = .error (refusal raw)) :
    Exact read denotes refusal where
  accepts raw a := by
    rw [← h]
    cases result : take raw with
    | some b => rw [taken raw b result, Except.ok.injEq, Option.some.injEq]
    | none => simp [left raw result]
  refuses raw nothing :=
    left raw (Option.eq_none_iff_forall_ne_some.2 fun a result => nothing a ((h raw a).1 result))

/-- Two readers for which the same denotes the same read the same, but for their errors. -/
theorem Exact.agree (h : Exact read denotes refusal) (h' : Exact read' denotes' refusal')
    (same : ∀ a, denotes' raw' a ↔ denotes raw a) {f : ε → ε'}
    (message : f (refusal raw) = refusal' raw') : read' raw' = (read raw).mapError f := by
  by_cases taken : ∃ a, denotes raw a
  · obtain ⟨a, ha⟩ := taken
    rw [(h.accepts raw a).2 ha, (h'.accepts raw' a).2 ((same a).2 ha)]
    rfl
  · have none (a : α) : ¬ denotes raw a := fun ha => taken ⟨a, ha⟩
    rw [h.refuses raw none, h'.refuses raw' fun a ha => none a ((same a).1 ha), ← message]
    rfl

end Exact

variable {w : Width} {cs : List Char} {s : String} {n : Int} {b : Bool}

theorem signed_iff : Signed cs n ↔ ∃ m : Nat, Digits (sign cs).2 m ∧ n = (sign cs).1 * m := by
  constructor
  · rintro (digits | digits | digits)
    · have bare : sign cs = (1, cs) := by
        rw [sign.eq_def]
        split
        · exact absurd ⟨_, rfl⟩ (digits.unsigned (c := '-') rfl)
        · exact absurd ⟨_, rfl⟩ (digits.unsigned (c := '+') rfl)
        · rfl
      rw [bare]
      exact ⟨_, digits, (Int.one_mul _).symm⟩
    · exact ⟨_, digits, (Int.one_mul _).symm⟩
    · exact ⟨_, digits, by rw [sign, Int.neg_one_mul]⟩
  · rintro ⟨m, digits, rfl⟩
    rw [sign.eq_def] at digits ⊢
    split at digits
    · simpa using Signed.minus digits
    · simpa using Signed.plus digits
    · simpa using Signed.bare digits

theorem leading_eq_ok_iff :
    leading cs = .ok (n, []) ↔ Signed (cs.dropWhile Text.isBlank) n ∧ Width.int64.fits n = true := by
  rw [leading, signed_iff]
  generalize sign (cs.dropWhile Text.isBlank) = signed
  obtain ⟨unit, ds⟩ := signed
  constructor
  · intro h
    dsimp only at h
    split_ifs at h with none fits
    obtain ⟨rfl, rest⟩ := Prod.mk.inj (Except.ok.inj h)
    have digits : ds.takeWhile Char.isDigit = ds := by
      conv_rhs => rw [← List.takeWhile_append_dropWhile (p := Char.isDigit) (l := ds), rest]
      exact (List.append_nil _).symm
    rw [digits] at none fits ⊢
    exact ⟨⟨_, ⟨none, List.takeWhile_eq_self_iff.1 digits, rfl⟩, rfl⟩, fits⟩
  · rintro ⟨⟨m, ⟨some, digits, rfl⟩, rfl⟩, fits⟩
    have taken : ds.takeWhile Char.isDigit = ds := List.takeWhile_eq_self_iff.2 digits
    have left : ds.dropWhile Char.isDigit = [] := List.dropWhile_eq_nil_iff.2 digits
    simp only [taken, left, if_neg some, if_pos fits]

theorem whole_eq_ok_iff :
    whole w cs = .ok n ↔ Signed (cs.dropWhile Text.isBlank) n ∧ w.low ≤ n ∧ n ≤ w.high := by
  have wide : w.low ≤ n ∧ n ≤ w.high → Width.int64.fits n = true := by
    rw [fits_iff]
    cases w <;> simp only [Width.low, Width.high] <;> omega
  constructor
  · intro h
    rw [whole] at h
    split at h
    case h_1 m rest first =>
      split_ifs at h with all
      cases h
      obtain ⟨rfl, fits⟩ := all
      exact ⟨(leading_eq_ok_iff.1 first).1, fits_iff.1 fits⟩
    case h_2 => cases h
  · rintro ⟨signed, fits⟩
    rw [whole, leading_eq_ok_iff.2 ⟨signed, wide fits⟩]
    exact if_pos ⟨rfl, fits_iff.2 fits⟩

theorem dropWhile_strip (p : Char → Bool) (cs : List Char) :
    (Text.strip p cs).dropWhile p = Text.strip p cs := by
  have shorter (ds : List Char) : (Text.strip p ds).length ≤ (ds.dropWhile p).length := by
    simpa [Text.strip] using (List.dropWhile_sublist p (l := (ds.dropWhile p).reverse)).length_le
  refine (List.dropWhile_suffix p).eq_of_length_le ?_
  conv_lhs => rw [← Text.strip_strip p cs]
  exact shorter _

theorem whole_trim : whole w (Text.trim s).toList = .ok n ↔ Written s n ∧ w.low ≤ n ∧ n ≤ w.high := by
  rw [whole_eq_ok_iff, Text.trim, String.toList_ofList, dropWhile_strip, written_iff]

theorem exact_number (w : Width) (key : String) : Exact (Parameters.number w key)
    (fun raw n => Written raw n ∧ w.low ≤ n ∧ n ≤ w.high) (.number key) :=
  .of_option (fun raw n => (ofText?_eq_some_iff : ofText? w raw = some n ↔ _))
    (fun raw n read => by rw [Parameters.number, read])
    (fun raw unread => by rw [Parameters.number, unread])

theorem exact_bytes_number (w : Width) (key : Bytes) : Exact (number w key)
    (fun raw n => Written raw.plain n ∧ w.low ≤ n ∧ n ≤ w.high) (complaint "numeric" key) where
  accepts raw n := by
    rw [← whole_trim, number]
    cases whole w (Text.trim raw.plain).toList <;> simp [Except.mapError]
  refuses raw none := by
    rw [number]
    cases read : whole w (Text.trim raw.plain).toList with
    | ok n => exact absurd (whole_trim.1 read) (none n)
    | error => rfl

theorem ofWord_eq_some_iff {word : String} : Parameters.ofWord word = some b ↔ word ∈ words b := by
  rw [Parameters.ofWord.eq_def]
  cases b <;> split <;> simp_all [words]

theorem toNat_le_of_isBlank {c : Char} (h : Text.isBlank c = true) : c.toNat ≤ 32 := by
  simp only [Text.isBlank, Bool.or_eq_true, decide_eq_true_eq] at h
  rcases h with ((((rfl | rfl) | rfl) | rfl) | rfl) | rfl <;> decide

theorem solid_of_word (h : String.ofList (cs.map Char.toLower) ∈ words b) :
    ∀ c ∈ cs, Text.isBlank c = false ∧ c.toNat < 0x80 := by
  have lowered : ∀ word ∈ words b, ∀ c ∈ word.toList, Text.isBlank c = false ∧ c.toNat < 0x80 := by
    cases b <;> simp [words, Text.isBlank]
  intro c hc
  have inside : c.toLower ∈ (String.ofList (cs.map Char.toLower)).toList := by
    rw [String.toList_ofList]
    exact List.mem_map_of_mem hc
  have lower := lowered _ h _ inside
  by_cases upper : c.val ≥ 'A'.val ∧ c.val ≤ 'Z'.val
  · have first : 65 ≤ c.toNat := upper.1
    have last : c.toNat ≤ 90 := upper.2
    refine ⟨Bool.eq_false_iff.2 fun blank => ?_, by omega⟩
    have := toNat_le_of_isBlank blank
    omega
  · have same : c.toLower = c := dif_neg upper
    rwa [same] at lower

theorem named_iff : Named s b ↔ Text.lower (Text.trim s) ∈ words b := by
  rw [Text.lower, Text.trim, String.toList_ofList]
  constructor
  · rintro ⟨before, cs, after, text, blank, word⟩
    have solid (c : Char) (hc : c ∈ cs) : Text.isBlank c = false := (solid_of_word word c hc).1
    rwa [text, Text.strip_append blank, Text.strip_eq_self
      (fun c hc => solid c (List.mem_of_mem_head? hc))
      (fun c hc => solid c (List.mem_of_mem_getLast? hc))]
  · intro word
    obtain ⟨before, after, text, blank⟩ := Text.exists_strip Text.isBlank s.toList
    exact ⟨before, _, after, text, blank, word⟩

theorem exact_boolean (key : String) :
    Exact (Parameters.boolean key) Named (.boolean key) :=
  .of_option (fun _ _ => ofWord_eq_some_iff.trans named_iff.symm)
    (fun raw b read => by rw [Parameters.boolean, read])
    (fun raw unread => by rw [Parameters.boolean, unread])

theorem exact_bytes_boolean (key : Bytes) :
    Exact (boolean key) (fun raw => Named raw.plain) (complaint "boolean" key) :=
  .of_option (fun _ _ => ofWord_eq_some_iff.trans named_iff.symm)
    (fun raw b read => by rw [boolean, read])
    (fun raw unread => by rw [boolean, unread])

section Ascii

variable {before after : List Char}

theorem ascii_between (text : s.toList = before ++ cs ++ after)
    (blank : ∀ c ∈ before ++ after, Text.isBlank c = true) (ascii : ∀ c ∈ cs, c.toNat < 0x80) :
    ∀ c ∈ s.toList, c.toNat < 0x80 := by
  have around (c : Char) (hc : c ∈ before ++ after) : c.toNat < 0x80 :=
    Nat.lt_of_le_of_lt (toNat_le_of_isBlank (blank c hc)) (by decide)
  obtain ⟨first, last⟩ := List.forall_mem_append.1 around
  rw [text]
  exact List.forall_mem_append.2 ⟨List.forall_mem_append.2 ⟨first, ascii⟩, last⟩

theorem ascii_of_signed (h : Signed cs n) : ∀ c ∈ cs, c.toNat < 0x80 := by
  have digits {ds : List Char} {m : Nat} (h : Digits ds m) (c : Char) (hc : c ∈ ds) :
      c.toNat < 0x80 := by
    have below : c.toNat ≤ '9'.toNat := (Char.isDigit_iff_toNat.1 (h.2.1 c hc)).2
    exact Nat.lt_of_le_of_lt below (by decide)
  cases h with
  | bare h => exact digits h
  | plus h => exact List.forall_mem_cons.2 ⟨by decide, digits h⟩
  | minus h => exact List.forall_mem_cons.2 ⟨by decide, digits h⟩

theorem written_ofText : Written (Bytes.ofText s).plain n ↔ Written s n :=
  Bytes.plain_ofText_iff (P := (Written · n)) fun _ ⟨_, _, _, text, blank, signed⟩ =>
    ascii_between text blank (ascii_of_signed signed)

theorem named_ofText : Named (Bytes.ofText s).plain b ↔ Named s b :=
  Bytes.plain_ofText_iff (P := (Named · b)) fun _ ⟨_, _, _, text, blank, word⟩ =>
    ascii_between text blank fun c hc => (solid_of_word word c hc).2

end Ascii

theorem ofText_complaint (noun key raw : String) :
    Bytes.ofText ("Invalid " ++ noun ++ " value for parameter " ++ key ++ ": '" ++ raw ++ "'") =
      complaint noun (Bytes.ofText key) (Bytes.ofText raw) := by
  simp only [complaint, Bytes.ofText_append]

/-- Numbers and flags are read for what they are, and all else is refused in one way, by its key. A
number is a decimal that fits its field, with blanks around it; so every number of the field is read
back from how it is printed. A flag is one of its words, in whatever case. The same holds byte by byte
of what need not be a text, where a number is read step by step; and for a text the two come to the
same. -/
theorem literals_exact :
    (∀ w key, Exact (Parameters.number w key)
      (fun raw n => Written raw n ∧ w.low ≤ n ∧ n ≤ w.high) (.number key)) ∧
    (∀ key, Exact (Parameters.boolean key) Named (.boolean key)) ∧
    (∀ (w : Width) key n (before after : String), w.low ≤ n → n ≤ w.high →
      (∀ c ∈ before.toList ++ after.toList, Text.isBlank c = true) →
      Parameters.number w key (before ++ toString n ++ after) = .ok n) ∧
    (∀ w key, Exact (number w key)
      (fun raw n => Written raw.plain n ∧ w.low ≤ n ∧ n ≤ w.high) (complaint "numeric" key)) ∧
    (∀ key, Exact (boolean key) (fun raw => Named raw.plain) (complaint "boolean" key)) ∧
    ∀ key raw : String,
      (∀ w, number w (Bytes.ofText key) (Bytes.ofText raw) =
        (Parameters.number w key raw).mapError fun e => Bytes.ofText e.message) ∧
      boolean (Bytes.ofText key) (Bytes.ofText raw) =
        (Parameters.boolean key raw).mapError fun e => Bytes.ofText e.message := by
  refine ⟨exact_number, exact_boolean, fun w key n before after low high blank => ?_,
    exact_bytes_number, exact_bytes_boolean, fun key raw => ⟨fun w => ?_, ?_⟩⟩
  · have written : Written (before ++ toString n ++ after) n :=
      ⟨before.toList, (toString n).toList, after.toList, by simp, blank, signed_toString n⟩
    exact ((exact_number w key).accepts _ n).2 ⟨written, low, high⟩
  · exact (exact_number w key).agree (exact_bytes_number w _)
      (fun n => and_congr_left' written_ofText) (ofText_complaint "numeric" key raw)
  · exact (exact_boolean key).agree (exact_bytes_boolean _) (fun b => named_ofText)
      (ofText_complaint "boolean" key raw)

theorem literals_exact_limits :
    let key := "retryInterval"
    let bytes : Bytes := [0x31, 0xFF]
    (∀ c ∈ "\t\x0b".toList ++ " \n".toList, Text.isBlank c = true) ∧
    Parameters.number .int32 key ("\t\x0b" ++ toString (-2147483648 : Int) ++ " \n") =
      .ok (-2147483648) ∧
    (∀ raw ∈ ["", "12\x00", "1.5", "1 2", "+-1", "9223372036854775808"],
      Parameters.number .int64 key raw = .error (.number key raw) ∧
      number .int64 (Bytes.ofText key) (Bytes.ofText raw) =
        .error (complaint "numeric" (Bytes.ofText key) (Bytes.ofText raw))) ∧
    number .int64 (Bytes.ofText key) bytes = .error (complaint "numeric" (Bytes.ofText key) bytes) ∧
    Parameters.boolean key " YeS" = .ok true ∧
    boolean (Bytes.ofText key) (Bytes.ofText " YeS") = .ok true := by
  intro key bytes
  obtain ⟨numbers, flags, printed, byBytes, -, alike⟩ := literals_exact
  have blank : ∀ c ∈ "\t\x0b".toList ++ " \n".toList, Text.isBlank c = true := by
    simp [Text.isBlank]
  have unread : ∀ raw ∈ ["", "12\x00", "1.5", "1 2", "+-1", "9223372036854775808"],
      ofText? .int64 raw = none := by decide
  have refused : ∀ raw ∈ ["", "12\x00", "1.5", "1 2", "+-1", "9223372036854775808"],
      Parameters.number .int64 key raw = .error (.number key raw) := by
    intro raw given
    refine (numbers .int64 key).refuses raw fun n written => ?_
    rw [← ofText?_eq_some_iff, unread raw given] at written
    cases written
  have noText : ofText? .int64 bytes.plain = none := by decide
  have yes : Parameters.boolean key " YeS" = .ok true :=
    ((flags key).accepts _ _).2 ⟨[' '], "YeS".toList, [], by decide, by simp [Text.isBlank], by decide⟩
  refine ⟨blank, printed .int32 key _ _ _ (by decide) (by decide) blank,
    fun raw given => ⟨refused raw given, ?_⟩, (byBytes .int64 _).refuses _ fun n written => ?_, yes, ?_⟩
  · rw [(alike key raw).1 .int64, refused raw given, ← ofText_complaint]
    rfl
  · rw [← ofText?_eq_some_iff, noText] at written
    cases written
  · rw [(alike key _).2, yes]
    rfl

end Courier.Literal
