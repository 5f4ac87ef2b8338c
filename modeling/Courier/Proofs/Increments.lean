import Courier.Counters
import Courier.Proofs.Encoding
import Courier.Proofs.Numerals
import Mathlib.Data.List.Induction
import Mathlib.Data.List.Infix

namespace Courier.Counters

inductive Operation
  | add (name : String) (amount : Int)
  | assign (name : String) (value : Int)
  | read (name : String)

namespace Operation

def touched? : Operation → Option String
  | add name _ | assign name _ => some name
  | read _ => none

def assigns (name : String) : Operation → Bool
  | assign other _ => other = name
  | add _ _ | read _ => false

def increase (name : String) : Operation → Int
  | add other amount => if other = name then amount else 0
  | assign _ _ | read _ => 0

end Operation

def perform (c : Counters) : Operation → Counters
  | .add name amount => c.add name amount
  | .assign name value => c.assign name value
  | .read _ => c

def performAll (c : Counters) (ops : List Operation) : Counters := ops.foldl perform c

def increments (amounts : List (String × Int)) : List Operation :=
  amounts.map fun a => .add a.1 a.2

def gain (name : String) : List Operation → Int
  | [] => 0
  | op :: ops => op.increase name + gain name ops

/-- The number a counter comes to: what it was last set to, and all that has been added since. -/
inductive Amounts (c : Counters) (ops : List Operation) (name : String) : Int → Prop
  | grown : (∀ op ∈ ops, op.assigns name = false) → Amounts c ops name (c.value name + gain name ops)
  | set {before after : List Operation} {value : Int} : ops = before ++ .assign name value :: after →
      (∀ op ∈ after, op.assigns name = false) → Amounts c ops name (value + gain name after)

/-- The counters there were and those that have been touched, in the order of the bytes of their
names, with the number each has come to. -/
structure Listing (c : Counters) (ops : List Operation) (entries : List (String × Int)) :
    Prop where
  ascending : entries.Pairwise fun a b => Bytes.ofText a.1 < Bytes.ofText b.1
  complete : ∀ name n, (name, n) ∈ entries ↔
    (name ∈ c ∨ ∃ op ∈ ops, op.touched? = some name) ∧ Amounts c ops name n

/-- As `perform`, with sums in words of 64 bits, which wrap round. -/
def performWord (c : Counters) : Operation → Counters
  | .add name amount => c.assign name ((c.value name + amount).bmod (2 ^ 64))
  | op => c.perform op

def Fits (c : Counters) (ops : List Operation) : Prop :=
  ∀ past, past <+: ops → ∀ name,
    Numeral.Width.int64.fits ((c.performAll past).value name) = true

variable {c : Counters} {op : Operation} {ops : List Operation} {name : String} {n : Int}

theorem performAll_append (c : Counters) (ops ops' : List Operation) :
    c.performAll (ops ++ ops') = (c.performAll ops).performAll ops' := List.foldl_append

theorem add_right_comm (c : Counters) (name other : String) (m n : Int) :
    (c.add name m).add other n = (c.add other n).add name m := by
  apply Std.ExtTreeMap.ext_getElem?
  intro key
  rw [add, value_add, add, add, value_add, add]
  simp only [Std.ExtTreeMap.getElem?_insert]
  grind

theorem performAll_perm {amounts others : List (String × Int)} (h : amounts.Perm others)
    (c : Counters) : c.performAll (increments amounts) = c.performAll (increments others) := by
  refine (h.map _).foldl_eq' (fun op hop op' hop' c => ?_) c
  obtain ⟨a, -, rfl⟩ := List.mem_map.1 hop
  obtain ⟨b, -, rfl⟩ := List.mem_map.1 hop'
  exact c.add_right_comm _ _ _ _

theorem value_perform (h : op.assigns name = false) :
    (c.perform op).value name = c.value name + op.increase name := by
  cases op with
  | add other amount => exact c.value_add other name amount
  | assign other value =>
    have different : other ≠ name := of_decide_eq_false h
    rw [perform, value_assign, if_neg different, Operation.increase, Int.add_zero]
  | read => exact (Int.add_zero _).symm

theorem value_performAll (h : ∀ op ∈ ops, op.assigns name = false) :
    (c.performAll ops).value name = c.value name + gain name ops := by
  induction ops generalizing c with
  | nil => exact (Int.add_zero _).symm
  | cons op ops ih =>
    obtain ⟨first, rest⟩ := List.forall_mem_cons.1 h
    have step : (c.performAll (op :: ops)).value name = ((c.perform op).performAll ops).value name :=
      rfl
    rw [step, ih rest, value_perform first, Int.add_assoc, gain]

theorem Amounts.value_eq (h : Amounts c ops name n) : (c.performAll ops).value name = n := by
  cases h with
  | grown untouched => exact value_performAll untouched
  | set split untouched =>
    subst split
    rw [performAll_append]
    refine (value_performAll untouched).trans (congrArg (· + _) ?_)
    rw [perform, value_assign, if_pos rfl]

theorem Amounts.concat (h : Amounts c ops name n) (kept : op.assigns name = false) :
    Amounts c (ops ++ [op]) name (n + op.increase name) := by
  have untouched {ops : List Operation} (h : ∀ o ∈ ops, o.assigns name = false) :
      ∀ o ∈ ops ++ [op], o.assigns name = false :=
    List.forall_mem_append.2 ⟨h, List.forall_mem_singleton.2 kept⟩
  have more (ops : List Operation) : gain name (ops ++ [op]) = gain name ops + op.increase name := by
    induction ops with
    | nil => exact Int.add_comm _ _
    | cons o ops ih => rw [List.cons_append, gain, gain, ih, Int.add_assoc]
  cases h with
  | grown h =>
    rw [Int.add_assoc, ← more]
    exact .grown (untouched h)
  | set split h =>
    rw [Int.add_assoc, ← more]
    exact .set (by rw [split, List.append_assoc, List.cons_append]) (untouched h)

theorem amounts_value (c : Counters) (ops : List Operation) (name : String) :
    Amounts c ops name ((c.performAll ops).value name) := by
  induction ops using List.reverseRecOn with
  | nil =>
    have untouched : Amounts c [] name (c.value name + 0) := .grown (List.forall_mem_nil _)
    rwa [Int.add_zero] at untouched
  | append_singleton ops op ih =>
    have step : c.performAll (ops ++ [op]) = (c.performAll ops).perform op := c.performAll_append _ _
    rw [step]
    cases kept : op.assigns name with
    | false =>
      rw [value_perform kept]
      exact ih.concat kept
    | true =>
      cases op with
      | add | read => cases kept
      | assign other value =>
        obtain rfl : other = name := of_decide_eq_true kept
        have just : Amounts c (ops ++ [.assign other value]) other (value + 0) :=
          .set rfl (List.forall_mem_nil _)
        rw [Int.add_zero] at just
        rwa [perform, value_assign, if_pos rfl]

theorem value_eq_iff : (c.performAll ops).value name = n ↔ Amounts c ops name n :=
  ⟨fun h => h ▸ amounts_value c ops name, Amounts.value_eq⟩

theorem mem_perform : name ∈ c.perform op ↔ name ∈ c ∨ op.touched? = some name := by
  cases op <;> simp [perform, add, assign, Operation.touched?, or_comm]

theorem mem_performAll :
    name ∈ c.performAll ops ↔ name ∈ c ∨ ∃ op ∈ ops, op.touched? = some name := by
  induction ops generalizing c with
  | nil => simp [performAll]
  | cons op ops ih =>
    have step : c.performAll (op :: ops) = (c.perform op).performAll ops := rfl
    rw [step, ih, mem_perform, or_assoc]
    simp

theorem mem_toList {t : Counters} : (name, n) ∈ t.toList ↔ name ∈ t ∧ t.value name = n := by
  rw [Std.ExtTreeMap.mem_toList_iff_getElem?_eq_some, Std.ExtTreeMap.mem_iff_isSome_getElem?, value,
    Std.ExtTreeMap.getD_eq_getD_getElem?]
  cases t[name]? <;> simp

theorem pairwise_toList (c : Counters) : c.toList.Pairwise fun a b => a.1 < b.1 :=
  Std.ExtTreeMap.ordered_keys_toList.imp compare_lt_iff_lt.1

theorem listing_toList (c : Counters) (ops : List Operation) :
    Listing c ops (c.performAll ops).toList where
  ascending := (c.performAll ops).pairwise_toList.imp Bytes.ofText_lt_iff.2
  complete name n := by rw [mem_toList, mem_performAll, value_eq_iff]

theorem mergeSort_kept {kept : List (String × Int)} (h : kept.Perm c.toList) :
    kept.mergeSort (fun a b => a.1 ≤ b.1) = c.toList := by
  have sorted : (kept.mergeSort fun a b => a.1 ≤ b.1).Pairwise fun a b => a.1 ≤ b.1 := by
    refine (List.pairwise_mergeSort ?_ ?_ kept).imp of_decide_eq_true
    · exact fun a b c ab bc => decide_eq_true (le_trans (of_decide_eq_true ab) (of_decide_eq_true bc))
    · intro a b
      simpa using le_total a.1 b.1
  refine List.Perm.eq_of_pairwise ?_ sorted (c.pairwise_toList.imp le_of_lt)
    ((List.mergeSort_perm _ _).trans h)
  -- Two entries are of one name at most if they are one entry.
  rintro ⟨name, m⟩ ⟨other, n⟩ isKept listed before after
  obtain rfl : name = other := le_antisymm before after
  have isListed := h.subset (List.mem_mergeSort.1 isKept)
  rw [mem_toList] at listed isListed
  rw [← listed.2, ← isListed.2]

theorem performWord_eq (h : ∀ name, Numeral.Width.int64.fits ((c.perform op).value name) = true) :
    c.performWord op = c.perform op := by
  cases op with
  | add name amount =>
    have room := h name
    rw [perform, value_add, if_pos rfl, Numeral.fits_iff] at room
    obtain ⟨low, high⟩ : -9223372036854775808 ≤ c.value name + amount ∧
      c.value name + amount ≤ 9223372036854775807 := room
    rw [performWord, Int.bmod_eq_of_le (by omega) (by omega)]
    rfl
  | assign | read => rfl

theorem foldl_performWord (h : Fits c ops) : ops.foldl performWord c = c.performAll ops := by
  induction ops generalizing c with
  | nil => rfl
  | cons op ops ih =>
    have first : c.performWord op = c.perform op :=
      performWord_eq (h [op] (List.prefix_append [op] ops))
    rw [List.foldl_cons, first]
    exact ih fun past later => h (op :: past) (List.prefix_cons_inj op |>.2 later)

/-- What is shown depends on nothing but what has been done. In whatever order increments are made,
the text and every number are the same. After any operations, and however the counters are kept, the
text has a line for each counter that there was or that has been touched, in the order of the bytes
of the names, with what it was last set to and all that has been added since; a name that is no text
has its place by its own bytes. As long as every number on the way fits, words of 64 bits do the
same. -/
theorem render_of_history (c : Counters) (ops : List Operation) :
    (∀ amounts others : List (String × Int), amounts.Perm others →
      (c.performAll (increments amounts)).render = (c.performAll (increments others)).render ∧
      ∀ name, (c.performAll (increments amounts)).value name =
        (c.performAll (increments others)).value name) ∧
    (∀ kept : List (String × Int), kept.Perm (c.performAll ops).toList →
      let entries := kept.mergeSort fun a b => a.1 ≤ b.1
      Listing c ops entries ∧
      (c.performAll ops).render =
        String.join (entries.map fun e => e.1 ++ " " ++ toString e.2 ++ "\n")) ∧
    (∀ name n, (c.performAll ops).value name = n ↔ Amounts c ops name n) ∧
    (∀ a b : Bytes, Bytes.ofText a.plain < Bytes.ofText b.plain ↔ a < b) ∧
    (Fits c ops → ops.foldl performWord c = c.performAll ops) := by
  refine ⟨fun amounts others h => ?_, fun kept h => ?_, fun name n => value_eq_iff, fun a b => ?_,
    foldl_performWord⟩
  · rw [performAll_perm h]
    exact ⟨rfl, fun _ => rfl⟩
  · rw [mergeSort_kept h]
    exact ⟨listing_toList c ops, rfl⟩
  · rw [Bytes.ofText_lt_iff, Bytes.plain_lt_iff]

theorem render_of_history_mixed :
    let amounts : List (String × Int) := [("a", 1), ("b", 2), ("a", -4)]
    let others : List (String × Int) := [("a", -4), ("a", 1), ("b", 2)]
    let ops : List Operation :=
      [.add "b" 0, .add "é" 4, .read "z", .assign "é" 5, .add "a" 3, .add "é" (-7)]
    let kept : List (String × Int) := [("é", -2), ("b", 0), ("a", 3)]
    amounts.Perm others ∧
    (performAll ∅ (increments amounts)).render = (performAll ∅ (increments others)).render ∧
    kept.Perm (performAll ∅ ops).toList ∧
    Listing ∅ ops [("a", 3), ("b", 0), ("é", -2)] ∧
    (performAll ∅ ops).render = "a 3\nb 0\né -2\n" ∧
    Fits ∅ ops ∧ ops.foldl performWord ∅ = performAll ∅ ops := by
  intro amounts others ops kept
  have reordered : amounts.Perm others := by decide
  have sorted : kept.Perm (performAll ∅ ops).toList := by decide +kernel
  have fits : Fits ∅ ops := by
    intro past early name
    rw [Numeral.fits_iff, Numeral.Width.low, Numeral.Width.high]
    have zero : value ∅ name = 0 := rfl
    have stages : past ∈ ops.inits := (List.mem_inits past ops).2 early
    simp only [ops, List.inits, List.map_cons, List.map_nil, List.mem_cons, List.not_mem_nil,
      or_false] at stages
    rcases stages with rfl | rfl | rfl | rfl | rfl | rfl | rfl <;>
      simp only [performAll, List.foldl_cons, List.foldl_nil, perform, value_add, value_assign,
        zero] <;> grind
  obtain ⟨alike, listed, -, -, words⟩ := render_of_history ∅ ops
  obtain ⟨listing, text⟩ := listed kept sorted
  have entries : kept.mergeSort (fun a b => a.1 ≤ b.1) = [("a", 3), ("b", 0), ("é", -2)] := by
    rw [mergeSort_kept sorted]
    decide +kernel
  rw [entries] at listing text
  exact ⟨reordered, (alike amounts others reordered).1, sorted, listing, text, fits, words fits⟩

end Courier.Counters
