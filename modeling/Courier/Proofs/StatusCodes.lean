import Courier.Proofs.Numerals
import Courier.Proofs.Succession
import Courier.Proofs.Tokens

namespace Courier

namespace Text

theorem items_intercalate {texts : List String}
    (h : ∀ t ∈ texts, t ≠ "" ∧ trim t = t ∧ ',' ∉ t.toList) :
    items (",".intercalate texts) = texts := by
  induction texts with
  | nil => rw [String.intercalate_nil]; rfl
  | cons t texts ih =>
    obtain ⟨⟨nonempty, trimmed, whole⟩, rest⟩ := List.forall_mem_cons.1 h
    have first : items t = [t] := by simp [items_of_not_mem whole, trimmed, nonempty]
    by_cases last : texts = []
    · rw [last, String.intercalate_singleton, first]
    · rw [String.intercalate_cons_of_ne_nil last, items_append_comma, first, ih rest,
        List.singleton_append]

end Text

namespace Classifier

/-- The token is a status code: a number with margins around it, and with blanks before it. -/
def Coded (token : String) (n : Int) : Prop :=
  ∃ before blanks cs after, token.toList = before ++ (blanks ++ cs) ++ after ∧
    (∀ c ∈ before ++ after, isMargin c = true) ∧ (∀ c ∈ blanks, Text.isBlank c = true) ∧
    Numeral.Signed cs n

variable {token : String} {n : Int}

theorem isBlank_of_isMargin {c : Char} (h : isMargin c = true) : Text.isBlank c = true := by
  simp only [isMargin, Bool.or_eq_true, decide_eq_true_eq] at h
  rcases h with ((rfl | rfl) | rfl) | rfl <;> rfl

theorem not_isMargin_of_not_isBlank {c : Char} (h : Text.isBlank c = false) :
    isMargin c = false := by
  rw [Bool.eq_false_iff]
  intro margin
  rw [isBlank_of_isMargin margin] at h
  cases h

theorem dropWhile_strip {blanks cs : List Char} (blank : ∀ c ∈ blanks, Text.isBlank c = true)
    (number : Numeral.Signed cs n) :
    (Text.strip isMargin (blanks ++ cs)).dropWhile Text.isBlank = cs := by
  have kept : ∀ c ∈ cs, Text.isBlank c = false := number.not_blank
  have split : blanks ++ cs =
      blanks.takeWhile isMargin ++ (blanks.dropWhile isMargin ++ cs) ++ [] := by
    rw [List.append_nil, ← List.append_assoc, List.takeWhile_append_dropWhile]
  have margin : ∀ c ∈ blanks.takeWhile isMargin ++ [], isMargin c = true := by
    rw [List.append_nil]
    exact List.all_eq_true.1 List.all_takeWhile
  have first : ∀ c ∈ (blanks.dropWhile isMargin ++ cs).head?, isMargin c = false := by
    intro c hc
    cases rest : blanks.dropWhile isMargin with
    | nil =>
      rw [rest, List.nil_append] at hc
      exact not_isMargin_of_not_isBlank (kept c (List.mem_of_mem_head? hc))
    | cons d ds =>
      have refused := blanks.head?_dropWhile_not isMargin
      rw [rest] at refused hc
      obtain rfl : d = c := by simpa using hc
      simpa using refused
  have last : ∀ c ∈ (blanks.dropWhile isMargin ++ cs).getLast?, isMargin c = false := by
    intro c hc
    rw [List.getLast?_append_of_ne_nil _ number.ne_nil] at hc
    exact not_isMargin_of_not_isBlank (kept c (List.mem_of_mem_getLast? hc))
  have inner : ∀ c ∈ blanks.dropWhile isMargin, Text.isBlank c = true := fun c hc =>
    blank c ((List.dropWhile_sublist isMargin).mem hc)
  rw [split, Text.strip_append margin, Text.strip_eq_self first last,
    List.dropWhile_append_of_pos inner,
    Text.dropWhile_eq_self fun c hc => kept c (List.mem_of_mem_head? hc)]

theorem statusCode?_eq_some_iff :
    statusCode? token = some n ↔ Coded token n ∧ -2147483648 ≤ n ∧ n ≤ 2147483647 := by
  have coded : Numeral.decimal? ((Text.strip isMargin token.toList).dropWhile Text.isBlank) =
      some n ↔ Coded token n := by
    rw [Numeral.decimal?_eq_some_iff]
    constructor
    · intro number
      obtain ⟨before, after, text, margin⟩ := Text.exists_strip isMargin token.toList
      refine ⟨before, (Text.strip isMargin token.toList).takeWhile Text.isBlank, _, after, ?_,
        margin, List.all_eq_true.1 List.all_takeWhile, number⟩
      rw [List.takeWhile_append_dropWhile]
      exact text
    · rintro ⟨before, blanks, cs, after, text, margin, blank, number⟩
      rw [text, Text.strip_append margin, dropWhile_strip blank number]
      exact number
  rw [statusCode?, Numeral.Width.narrow, Option.filter_eq_some_iff, coded]
  simp only [Numeral.Width.fits, Bool.and_eq_true, decide_eq_true_eq]
  rfl

theorem coded_toString (n : Int) : Coded (toString n) n :=
  ⟨[], [], (toString n).toList, [], by simp, by simp, by simp, Numeral.signed_toString n⟩

variable {c : Classifier}

theorem int32_of_mem (h : n ∈ c.nonErrorStatusCodes) : -2147483648 ≤ n ∧ n ≤ 2147483647 := by
  obtain ⟨t, -, code⟩ := mem_nonErrorStatusCodes.1 h
  exact (statusCode?_eq_some_iff.1 code).2

theorem mem_codes_ofTokens {ts errorStatuses : List String} :
    n ∈ (ofTokens ts errorStatuses).nonErrorStatusCodes ↔
      (∃ t ∈ ts, Coded t n) ∧ -2147483648 ≤ n ∧ n ≤ 2147483647 := by
  rw [mem_nonErrorStatusCodes]
  constructor
  · rintro ⟨t, ht, code⟩
    obtain ⟨coded, range⟩ := statusCode?_eq_some_iff.1 code
    exact ⟨⟨t, (mem_ofTokens.1 ht).2, coded⟩, range⟩
  · rintro ⟨⟨t, ht, coded⟩, range⟩
    have nonempty : t ≠ "" := by
      rintro rfl
      obtain ⟨before, blanks, cs, after, text, -, -, number⟩ := coded
      exact number.ne_nil (by simp_all)
    exact ⟨t, mem_ofTokens.2 ⟨nonempty, ht⟩, statusCode?_eq_some_iff.2 ⟨coded, range⟩⟩

theorem items_nonErrorStatusText (c : Classifier) :
    Text.items c.nonErrorStatusText = c.nonErrorStatusCodes.map toString := by
  refine Text.items_intercalate fun t ht => ?_
  obtain ⟨n, -, rfl⟩ := List.mem_map.1 ht
  have number := Numeral.signed_toString n
  have solid : Text.strip Text.isBlank (toString n).toList = (toString n).toList :=
    Text.strip_eq_self (fun c hc => number.not_blank c (List.mem_of_mem_head? hc))
      (fun c hc => number.not_blank c (List.mem_of_mem_getLast? hc))
  refine ⟨?_, ?_, number.not_comma⟩
  · intro empty
    exact number.ne_nil (by rw [empty]; rfl)
  · rw [Text.trim, solid, String.ofList_toList]

theorem codes_of_text (c : Classifier) (errorStatuses : List String) :
    (ofTokens (Text.items c.nonErrorStatusText) errorStatuses).nonErrorStatusCodes =
      c.nonErrorStatusCodes := by
  refine (pairwise_nonErrorStatusCodes _).eq_of_mem_iff c.pairwise_nonErrorStatusCodes fun n => ?_
  rw [mem_codes_ofTokens, items_nonErrorStatusText]
  constructor
  · rintro ⟨⟨t, ht, coded⟩, range⟩
    obtain ⟨m, hm, rfl⟩ := List.mem_map.1 ht
    have read : statusCode? (toString m) = some n := statusCode?_eq_some_iff.2 ⟨coded, range⟩
    have same : statusCode? (toString m) = some m :=
      statusCode?_eq_some_iff.2 ⟨coded_toString m, int32_of_mem hm⟩
    obtain rfl : m = n := Option.some.inj (same.symm.trans read)
    exact hm
  · intro hn
    exact ⟨⟨toString n, List.mem_map_of_mem hn, coded_toString n⟩, int32_of_mem hn⟩

end Classifier

namespace Worker

variable {σ : Type}

theorem workingCopy_of_sends (w : Worker σ) (world : σ) (visits : List (Visit σ)) :
    ∀ x ∈ (w.history world visits).moments, x.event.sends = true →
      ∃ e received, x.event = .sending e (w.workingCopy (unmarked received)) := by
  intro x hx sends
  obtain ⟨before, after, split⟩ := List.append_of_mem hx
  obtain ⟨-, -, m, -, e, -, -, -, sending⟩ :=
    (w.reached_history world visits).conveyed .nil before x after split sends
  exact ⟨e, m, sending⟩

/-- The codes among the non-retry tokens are the integers of 32 bits that a token is a number for.
Every message that is sent tells them to the transport, in ascending order, as decimals with commas
between them and whatever the message said before; and read as tokens this text has the same
codes. -/
theorem codes_told (tokens errorStatuses : List String) :
    let codes := (Classifier.ofTokens tokens errorStatuses).nonErrorStatusCodes
    let text := ",".intercalate (codes.map toString)
    (∀ n, n ∈ codes ↔
      (∃ t ∈ tokens, Classifier.Coded t n) ∧ -2147483648 ≤ n ∧ n ≤ 2147483647) ∧
    codes.Pairwise (· < ·) ∧
    (∀ w : Worker σ, w.settings.nonRetryTokens = tokens → ∀ world visits,
      ∀ x ∈ (w.history world visits).moments, ∀ e m, x.event = .sending e m →
        m.property? Property.nonErrorHttpStatusCodes = some text) ∧
    (Classifier.ofTokens (Text.items text) errorStatuses).nonErrorStatusCodes = codes := by
  intro codes text
  refine ⟨fun n => Classifier.mem_codes_ofTokens, Classifier.pairwise_nonErrorStatusCodes _, ?_,
    Classifier.codes_of_text _ errorStatuses⟩
  rintro w rfl world visits x hx e m sending
  obtain ⟨e', received, copy⟩ :=
    w.workingCopy_of_sends world visits x hx (by rw [sending, Event.sends])
  obtain ⟨rfl, rfl⟩ := Event.sending.inj (sending.symm.trans copy)
  rw [workingCopy, Message.property?_setProperty, if_pos rfl]
  rfl

theorem codes_told_plain :
    let tokens := ["404 ", "\x0b+404", "-5", "4294967296", "refused"]
    let w := plain { nonRetryTokens := tokens } (.ok none)
    let m := Message.setProperty ⟨"1", ∅, .null⟩ Property.nonErrorHttpStatusCodes "500"
    let codes := (Classifier.ofTokens tokens []).nonErrorStatusCodes
    codes = [-5, 404] ∧ w.settings.nonRetryTokens = tokens ∧
    (∃ x ∈ (w.history [m] [.run 2]).moments, ∃ e n, x.event = .sending e n ∧
      n.property? Property.nonErrorHttpStatusCodes = some "-5,404") ∧
    (Classifier.ofTokens (Text.items "-5,404") []).nonErrorStatusCodes = codes := by
  intro tokens w m codes
  obtain ⟨-, -, told, again⟩ := codes_told (σ := List Message) tokens []
  have text : ",".intercalate (codes.map toString) = "-5,404" := by decide +kernel
  have any : (w.history [m] [.run 2]).moments.any (·.event.sends) = true := by decide +kernel
  obtain ⟨x, hx, sends⟩ := List.any_eq_true.1 any
  obtain ⟨e, received, sending⟩ := w.workingCopy_of_sends _ _ x hx sends
  exact ⟨by decide +kernel, rfl,
    ⟨x, hx, e, _, sending, text ▸ told w rfl _ _ x hx e _ sending⟩, text ▸ again⟩

end Worker

end Courier
