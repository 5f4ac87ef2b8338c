namespace Courier.Text

def isBlank (c : Char) : Bool :=
  c = ' ' || c = '\t' || c = '\n' || c = '\x0b' || c = '\x0c' || c = '\r'

def strip (p : Char → Bool) (cs : List Char) : List Char :=
  ((cs.dropWhile p).reverse.dropWhile p).reverse

section Strip

variable {p : Char → Bool} {before cs after : List Char}

theorem dropWhile_eq_self (h : ∀ c ∈ cs.head?, p c = false) : cs.dropWhile p = cs := by
  cases cs with
  | nil => rfl
  | cons c cs => simp [h c rfl]

theorem strip_eq_self (first : ∀ c ∈ cs.head?, p c = false)
    (last : ∀ c ∈ cs.getLast?, p c = false) : strip p cs = cs := by
  rw [strip, dropWhile_eq_self first, dropWhile_eq_self (by simpa using last), List.reverse_reverse]

theorem exists_strip (p : Char → Bool) (cs : List Char) :
    ∃ before after, cs = before ++ strip p cs ++ after ∧ ∀ c ∈ before ++ after, p c = true := by
  refine ⟨cs.takeWhile p, ((cs.dropWhile p).reverse.takeWhile p).reverse, ?_, ?_⟩
  · rw [strip, List.append_assoc, ← List.reverse_append, List.takeWhile_append_dropWhile,
      List.reverse_reverse, List.takeWhile_append_dropWhile]
  · intro c hc
    rcases List.mem_append.1 hc with hc | hc
    · exact List.all_eq_true.1 List.all_takeWhile c hc
    · exact List.all_eq_true.1 List.all_takeWhile c (List.mem_reverse.1 hc)

theorem strip_append (h : ∀ c ∈ before ++ after, p c = true) :
    strip p (before ++ cs ++ after) = strip p cs := by
  have drop {around : List Char} (h : ∀ c ∈ around, p c = true) (cs : List Char) :
      (around ++ cs).dropWhile p = cs.dropWhile p := List.dropWhile_append_of_pos h
  obtain ⟨first, last⟩ := List.forall_mem_append.1 h
  rw [strip, List.append_assoc, drop first, strip, List.dropWhile_append]
  split
  case isTrue none =>
    have inner : cs.dropWhile p = [] := List.isEmpty_iff.1 none
    have outer : after.dropWhile p = [] := by simpa using drop last []
    rw [inner, outer]
  case isFalse =>
    rw [List.reverse_append, drop (by simpa using last)]

theorem strip_strip (p : Char → Bool) (cs : List Char) : strip p (strip p cs) = strip p cs := by
  have refused (ds : List Char) : ∀ c ∈ (ds.dropWhile p).head?, p c = false := by
    intro c hc
    have := ds.head?_dropWhile_not p
    rwa [hc] at this
  refine strip_eq_self (fun c hc => ?_) (by simpa [strip] using refused (cs.dropWhile p).reverse)
  obtain ⟨rest, front⟩ := List.dropWhile_suffix (l := (cs.dropWhile p).reverse) p
  refine refused cs c ?_
  rw [← List.reverse_reverse (cs.dropWhile p), ← front, List.reverse_append, List.head?_append]
  rw [strip] at hc
  simp [Option.mem_def.1 hc]

end Strip

def trim (s : String) : String := String.ofList (strip isBlank s.toList)

def lower (s : String) : String := String.ofList (s.toList.map Char.toLower)

def occurs (part : List Char) : List Char → Bool
  | [] => part.isEmpty
  | c :: cs => part.isPrefixOf (c :: cs) || occurs part cs

def contains (whole part : String) : Bool := occurs part.toList whole.toList

def beforeNul (s : String) : String := String.ofList (s.toList.takeWhile (· != '\x00'))

def pieces (sep : Char) : List Char → List (List Char)
  | [] => [[]]
  | c :: cs =>
    if c = sep then [] :: pieces sep cs
    else match pieces sep cs with
      | [] => [[c]]
      | p :: ps => (c :: p) :: ps

theorem pieces_ne_nil (sep : Char) (cs : List Char) : pieces sep cs ≠ [] := by
  cases cs with
  | nil => simp [pieces]
  | cons c cs => grind [pieces]

theorem not_mem_of_mem_pieces {sep : Char} {cs p : List Char} (h : p ∈ pieces sep cs) :
    sep ∉ p := by
  induction cs generalizing p with
  | nil => simp_all [pieces]
  | cons c cs ih => grind [pieces]

theorem pieces_of_not_mem {sep : Char} {cs : List Char} (h : sep ∉ cs) : pieces sep cs = [cs] := by
  induction cs with
  | nil => rfl
  | cons c cs ih =>
    obtain ⟨hc, hcs⟩ : sep ≠ c ∧ sep ∉ cs := by simpa using h
    simp [pieces, Ne.symm hc, ih hcs]

theorem pieces_append_sep (sep : Char) (cs ds : List Char) :
    pieces sep (cs ++ sep :: ds) = pieces sep cs ++ pieces sep ds := by
  induction cs with
  | nil => simp [pieces]
  | cons c cs ih =>
    rw [List.cons_append, pieces, pieces, ih]
    split
    · rfl
    · cases h : pieces sep cs with
      | nil => exact absurd h (pieces_ne_nil sep cs)
      | cons p ps => rfl

/-- The items of a comma-separated list, each trimmed, without those that are empty then. -/
def items (s : String) : List String :=
  ((pieces ',' s.toList).map fun p => String.ofList (strip isBlank p)).filter (· != "")

theorem of_mem_items {s item : String} (h : item ∈ items s) :
    item ≠ "" ∧ trim item = item ∧ ',' ∉ item.toList := by
  obtain ⟨found, nonempty⟩ := List.mem_filter.1 h
  obtain ⟨piece, inside, rfl⟩ := List.mem_map.1 found
  refine ⟨by simpa using nonempty, ?_, fun comma => ?_⟩
  · rw [trim, String.toList_ofList, strip_strip]
  · obtain ⟨before, after, whole, -⟩ := exists_strip isBlank piece
    refine not_mem_of_mem_pieces inside ?_
    rw [whole]
    simp [String.toList_ofList ▸ comma]

theorem items_append_comma (s t : String) : items (s ++ "," ++ t) = items s ++ items t := by
  have comma : (s ++ "," ++ t).toList = s.toList ++ ',' :: t.toList := by simp
  rw [items, comma, pieces_append_sep, List.map_append, List.filter_append, items, items]

theorem items_of_not_mem {s : String} (h : ',' ∉ s.toList) :
    items s = [trim s].filter (· != "") := by
  rw [items, pieces_of_not_mem h, trim, List.map_singleton]

theorem mem_trim {s : String} {c : Char} (h : c ∈ s.toList) (kept : isBlank c = false) :
    c ∈ (trim s).toList := by
  obtain ⟨before, after, whole, blank⟩ := exists_strip isBlank s.toList
  rw [whole, List.append_assoc, List.mem_append, List.mem_append] at h
  rw [trim, String.toList_ofList]
  rcases h with h | h | h
  · simp [blank c (List.mem_append_left _ h)] at kept
  · exact h
  · simp [blank c (List.mem_append_right _ h)] at kept

end Courier.Text
