import Courier.Proofs.Bearing
import Mathlib.Data.List.Sort

namespace Courier

variable {σ : Type}

namespace Classifier

variable {c d : Classifier}

theorem mem_ofTokens {ts errorStatuses : List String} {t : String} :
    t ∈ (ofTokens ts errorStatuses).tokens ↔ t ≠ "" ∧ t ∈ ts := by
  simp [ofTokens, and_comm]

theorem isNonRetryable_mono (h : c.tokens ⊆ d.tokens) {text : String}
    (final : c.isNonRetryable text = true) : d.isNonRetryable text = true := by
  obtain ⟨t, ht, occurs⟩ := List.any_eq_true.1 final
  exact List.any_eq_true.2 ⟨t, h ht, occurs⟩

theorem isNonRetryable_congr (h : ∀ t, t ∈ c.tokens ↔ t ∈ d.tokens) :
    c.isNonRetryable = d.isNonRetryable := by
  funext text
  rw [Bool.eq_iff_iff]
  exact ⟨isNonRetryable_mono fun t => (h t).1, isNonRetryable_mono fun t => (h t).2⟩

theorem mem_nonErrorStatusCodes {n : Int} :
    n ∈ c.nonErrorStatusCodes ↔ ∃ t ∈ c.tokens, statusCode? t = some n := by
  have mem_place_all (ns : List Int) : n ∈ ns.foldr place [] ↔ n ∈ ns := by
    induction ns with
    | nil => rfl
    | cons m ms ih => rw [List.foldr_cons, mem_place, ih, List.mem_cons]
  rw [nonErrorStatusCodes, mem_place_all, List.mem_filterMap]

theorem pairwise_nonErrorStatusCodes (c : Classifier) :
    c.nonErrorStatusCodes.Pairwise (· < ·) := by
  rw [nonErrorStatusCodes]
  induction c.tokens.filterMap statusCode? with
  | nil => exact .nil
  | cons n ns ih => exact pairwise_place ih

theorem nonErrorStatusText_congr (h : ∀ t, t ∈ c.tokens ↔ t ∈ d.tokens) :
    c.nonErrorStatusText = d.nonErrorStatusText := by
  have codes : c.nonErrorStatusCodes = d.nonErrorStatusCodes := by
    refine c.pairwise_nonErrorStatusCodes.eq_of_mem_iff d.pairwise_nonErrorStatusCodes fun n => ?_
    simp only [mem_nonErrorStatusCodes, h]
  rw [nonErrorStatusText, nonErrorStatusText, codes]

theorem classifyError_mono (h : c.tokens ⊆ d.tokens) {text : String}
    (final : (c.classifyError text).outcome = .nonRetryable) :
    d.classifyError text = c.classifyError text := by
  rw [classifyError] at final ⊢
  rw [classifyError]
  split at final
  case isTrue matched => rw [if_pos matched, if_pos (isNonRetryable_mono h matched)]
  case isFalse => cases final

theorem classifyResponse_marked {response : Message}
    (marked : response.property Property.blockingSenderError = "true") :
    c.classifyResponse response =
      c.classifyError (response.property Property.errorMessage) := by
  rw [classifyResponse, if_pos marked]

theorem classifyResponse_unmarked (statuses : c.errorStatuses = d.errorStatuses)
    {response : Message} (unmarked : response.property Property.blockingSenderError ≠ "true") :
    c.classifyResponse response = d.classifyResponse response := by
  have errors : c.isErrorStatus = d.isErrorStatus := by
    funext status
    rw [isErrorStatus, isErrorStatus, statuses]
  rw [classifyResponse, classifyResponse, if_neg unmarked, if_neg unmarked, errors]

theorem classifyResponse_congr (final : c.isNonRetryable = d.isNonRetryable)
    (statuses : c.errorStatuses = d.errorStatuses) : c.classifyResponse = d.classifyResponse := by
  funext response
  by_cases marked : response.property Property.blockingSenderError = "true"
  · rw [classifyResponse_marked marked, classifyResponse_marked marked, classifyError,
      classifyError, final]
  · exact classifyResponse_unmarked statuses marked

end Classifier

/-- Lists with the same tokens, in any order, apart from empty ones. -/
def SameTokens (ts us : List String) : Prop := ∀ t, t ≠ "" → (t ∈ ts ↔ t ∈ us)

namespace Worker

def tokened (w : Worker σ) (ts : List String) : Worker σ :=
  w.under { w.settings with nonRetryTokens := ts }

theorem alike_tokened (w : Worker σ) {ts us : List String} (same : SameTokens ts us) :
    (w.tokened ts).settings.Alike (w.tokened us).settings := by
  have tokens (t : String) : t ∈ (w.tokened ts).settings.classifier.tokens ↔
      t ∈ (w.tokened us).settings.classifier.tokens := by
    rw [Settings.classifier, Settings.classifier, Classifier.mem_ofTokens, Classifier.mem_ofTokens]
    exact and_congr_right (same t)
  have final := Classifier.isNonRetryable_congr tokens
  refine ⟨rfl, rfl, ?_, rfl, final, Classifier.classifyResponse_congr final rfl,
    Classifier.nonErrorStatusText_congr tokens, rfl, rfl, rfl, rfl, rfl⟩
  funext kind
  cases kind <;> rfl

/-- Only the set of the non-retry tokens matters. Two workers whose lists have the same tokens do
the same, whatever is done to them and whatever they run against; and further tokens change a
verdict at most from a failure that is tried again to one that is not. -/
theorem tokens_form_set (w : Worker σ) :
    (∀ ts us, SameTokens ts us → ∀ world visits,
      (w.tokened ts).live visits ((w.tokened ts).fresh world) =
        (w.tokened us).live visits ((w.tokened us).fresh world)) ∧
    ∀ ts us errorStatuses, (∀ t ∈ ts, t ≠ "" → t ∈ us) →
      let c := Classifier.ofTokens ts errorStatuses
      let d := Classifier.ofTokens us errorStatuses
      (∀ text, (c.classifyError text).outcome = .nonRetryable →
        d.classifyError text = c.classifyError text) ∧
      (∀ response : Message, response.property Property.blockingSenderError = "true" →
        (c.classifyResponse response).outcome = .nonRetryable →
          d.classifyResponse response = c.classifyResponse response) ∧
      ∀ response : Message, response.property Property.blockingSenderError ≠ "true" →
        d.classifyResponse response = c.classifyResponse response := by
  refine ⟨fun ts us same world visits => ?_, fun ts us errorStatuses more => ?_⟩
  · have alike := w.alike_tokened same
    exact congrFun (under_live (w := w.tokened us) alike rfl visits) ((w.tokened us).fresh world)
  · have tokens : (Classifier.ofTokens ts errorStatuses).tokens ⊆
        (Classifier.ofTokens us errorStatuses).tokens := by
      intro t ht
      obtain ⟨nonempty, given⟩ := Classifier.mem_ofTokens.1 ht
      exact Classifier.mem_ofTokens.2 ⟨nonempty, more t given nonempty⟩
    have statuses : (Classifier.ofTokens us errorStatuses).errorStatuses =
        (Classifier.ofTokens ts errorStatuses).errorStatuses := rfl
    refine ⟨fun text => Classifier.classifyError_mono tokens, fun response marked final => ?_,
      fun response unmarked => Classifier.classifyResponse_unmarked statuses unmarked⟩
    rw [Classifier.classifyResponse_marked marked] at final
    rw [Classifier.classifyResponse_marked marked, Classifier.classifyResponse_marked marked]
    exact Classifier.classifyError_mono tokens final

theorem tokens_form_set_plain :
    let w := plain {} (.error (.delivery "refused" "Status 404"))
    let ts := ["500", "404"]
    let us := ["404", "", "500", "404"]
    let c := Classifier.ofTokens ["404"] []
    let d := Classifier.ofTokens ts []
    let plainly : Message := ⟨"r", ∅, .null⟩
    let marked := (plainly.setProperty Property.blockingSenderError "true").setProperty
      Property.errorMessage "Status 404"
    SameTokens ts us ∧
      (w.tokened ts).live [.run 2] ((w.tokened ts).fresh [⟨"1", ∅, .null⟩]) =
        (w.tokened us).live [.run 2] ((w.tokened us).fresh [⟨"1", ∅, .null⟩]) ∧
      ((w.tokened ts).history [⟨"1", ∅, .null⟩] [.run 2]).counters.value Counter.nonRetry = 1 ∧
      (∀ t ∈ ["404"], t ≠ "" → t ∈ ts) ∧
      (c.classifyError "Status 404").outcome = .nonRetryable ∧
      d.classifyError "Status 404" = c.classifyError "Status 404" ∧
      marked.property Property.blockingSenderError = "true" ∧
      (c.classifyResponse marked).outcome = .nonRetryable ∧
      d.classifyResponse marked = c.classifyResponse marked ∧
      plainly.property Property.blockingSenderError ≠ "true" ∧
      d.classifyResponse plainly = c.classifyResponse plainly := by
  intro w ts us c d plainly marked
  have same : SameTokens ts us := by
    intro t nonempty
    simp [ts, us, nonempty, or_comm]
  have more : ∀ t ∈ ["404"], t ≠ "" → t ∈ ts := by simp [ts]
  have final : (c.classifyError "Status 404").outcome = .nonRetryable := by decide
  have mark : marked.property Property.blockingSenderError = "true" := by decide
  have final' : (c.classifyResponse marked).outcome = .nonRetryable := by decide
  have unmarked : plainly.property Property.blockingSenderError ≠ "true" := by decide
  obtain ⟨texts, marks, others⟩ := w.tokens_form_set.2 ["404"] ts [] more
  exact ⟨same, w.tokens_form_set.1 ts us same _ _, by decide +kernel, more, final, texts _ final,
    mark, final', marks marked mark final', unmarked, others plainly unmarked⟩

end Worker

end Courier
