import Courier.Proofs.Outline

namespace Courier

namespace Location

def step (l : Location) : Path.Step → Location
  | .stay => l
  | .up => l.parent
  | .into name => l ++ [name]

end Location

namespace Files

variable {fs fs' : Files}

def present (fs : Files) (path : String) : Bool :=
  match fs.locate path with
  | .ok l => (fs.node? l).isSome
  | .error _ => false

@[simp] theorem present_outline (fs : Files) (path : String) :
    fs.outline.present path = fs.present path := by
  unfold present
  rw [locate_outline]
  cases fs.locate path with
  | error e => rfl
  | ok l => simp

theorem present_congr (h : fs.outline = fs'.outline) (path : String) :
    fs.present path = fs'.present path := by
  rw [← present_outline, h, present_outline]

theorem follow_eq {ss : List Path.Step} {l m : Location} (h : fs.follow l ss = .ok m) :
    m = ss.foldl Location.step l := by
  induction ss generalizing l with
  | nil =>
    cases h
    rfl
  | cons s ss ih =>
    obtain ⟨k, ht, h⟩ := bind_ok h
    have hk : k = l.step s := by
      have := (take_ok ht).2
      cases s <;> exact this
    rw [ih h, hk, List.foldl_cons]

theorem node?_insert_of_ne {l k : Location} (h : k ≠ l) (n : Node) :
    node? (fs.insert l n) k = fs.node? k := by
  have : compare l k ≠ .eq := fun he => h (Std.LawfulEqCmp.eq_of_compare he).symm
  simp [node?, Std.ExtTreeMap.getElem?_insert, this]

theorem node?_erase_of_ne {l k : Location} (h : k ≠ l) : node? (fs.erase l) k = fs.node? k := by
  have : compare l k ≠ .eq := fun he => h (Std.LawfulEqCmp.eq_of_compare he).symm
  simp [node?, Std.ExtTreeMap.getElem?_erase, this]

theorem node?_move {source target k : Location} (hs : ¬source <+: k) (ht : ¬target <+: k) :
    (fs.move source target).node? k = fs.node? k := by
  have each (es : List (Location × Node)) (hes : ∀ e ∈ es, e.1 ≠ k) (fs : Files) :
      node? (es.foldl (fun fs e =>
        (fs.erase e.1).insert (target ++ e.1.drop source.length) e.2) fs) k = fs.node? k := by
    induction es generalizing fs with
    | nil => rfl
    | cons e es ih =>
      obtain ⟨he, hes⟩ := List.forall_mem_cons.1 hes
      have away : k ≠ target ++ e.1.drop source.length := fun h => ht ⟨_, h.symm⟩
      rw [List.foldl_cons, ih hes, node?_insert_of_ne away, node?_erase_of_ne (Ne.symm he)]
  rw [move, each, node?_erase_of_ne]
  · rintro rfl
    exact ht (List.prefix_refl _)
  · intro e he hk
    simp only [List.mem_filter, Bool.or_eq_true, decide_eq_true_eq, Location.isBelow,
      Bool.and_eq_true] at he
    rcases he.2 with same | ⟨below, -⟩
    · exact hs (same ▸ hk ▸ List.prefix_refl _)
    · exact hs (hk ▸ List.isPrefixOf_iff_prefix.1 below)

theorem rename_ok {source target : String} (h : fs.rename source target = .ok fs') :
    ∃ a b, fs.locate source = .ok a ∧ fs.locate target = .ok b ∧
      ∀ k, ¬a <+: k → ¬b <+: k → fs'.node? k = fs.node? k := by
  obtain ⟨a, ha, h⟩ := bind_ok h
  split at h
  · cases h
  split at h
  · cases h
  obtain ⟨b, hb, h⟩ := bind_ok h
  refine ⟨a, b, ha, hb, fun k hk hk' => ?_⟩
  have apart {l : Location} (h : ¬l <+: k) : k ≠ l := by
    rintro rfl
    exact h (List.prefix_refl _)
  split at h
  · cases h
    rfl
  split at h
  · cases h
  · cases h
    rw [node?_insert_of_ne (apart hk'), node?_erase_of_ne (apart hk)]
  · cases h
  · split at h
    · cases h
      exact node?_move hk hk'
    · cases h
  · cases h
    exact node?_move hk hk'

theorem open?_inserts {path : String} {f : Bytes → Bytes} {l : Location}
    (h : fs.open? path f = .ok (l, fs')) :
    fs.node? l ≠ some .directory ∧ ∃ content, fs' = fs.insert l (.file content) := by
  obtain ⟨k, -, h⟩ := bind_ok h
  split at h
  · cases h
  · next there =>
    split at h
    · cases h
    · cases h
      exact ⟨by simp [there], _, rfl⟩
  · next free =>
    split at h
    · cases h
    · cases h
      exact ⟨by simp [free], _, rfl⟩

end Files

namespace Logger

namespace Place

variable {s : Place} {N m n : Nat} {fs fs' fs'' : Files}

structure Named (s : Place) : Prop where
  paths : ∀ n, Path.ofText (slot s.path n) = ⟨s.way ++ [.into (s.name n)], false⟩
  leads : ∀ {fs : Files} {l}, fs.follow [] s.way = .ok l → l = s.directory

theorem exists_named {path : String} {f : Bytes → Bytes} {l : Location}
    (whole : '\x00' ∉ path.toList) (h : fs.open? path f = .ok (l, fs')) :
    ∃ s : Place, s.path = path ∧ s.Named := by
  obtain ⟨located, unslashed⟩ := Files.open?_ok h
  have follows : fs.follow [] (Path.ofText path).steps = .ok l := by
    unfold Files.locate at located
    split at located
    · cases located
    · exact located
  obtain ⟨way, directory, name, named, -, -⟩ :=
    Files.follow_named follows (Files.open?_inserts h).1
  obtain ⟨stem, paths⟩ := ofText_slot whole named unslashed
  exact ⟨⟨path, way, way.foldl Location.step [], stem⟩, rfl, paths, Files.follow_eq⟩

theorem Named.of_locate (h : s.Named) {l : Location}
    (located : fs.locate (slot s.path n) = .ok l) : s.In fs ∧ l = s.spot n := by
  unfold Files.locate at located
  split at located
  · cases located
  · rw [h.paths, Files.follow_append] at located
    obtain ⟨d, leads, last⟩ := Files.bind_ok located
    obtain ⟨k, taken, arrived⟩ := Files.bind_ok last
    obtain ⟨ends, named⟩ := Files.take_ok taken
    have place := h.leads leads
    cases arrived
    subst place
    exact ⟨⟨h.paths, leads, ends⟩, named⟩

theorem present_slot (h : s.In fs) (n : Nat) :
    fs.present (slot s.path n) = (!s.isLong n && (fs.node? (s.spot n)).isSome) := by
  rw [Files.present, h.locate]
  cases s.isLong n <;> rfl

theorem Named.of_present (h : s.Named) (present : fs.present (slot s.path n) = true) :
    s.In fs := by
  unfold Files.present at present
  split at present
  case h_1 l located => exact (h.of_locate located).1
  case h_2 => cases present

theorem incomparable_spots (h : m ≠ n) : ¬s.spot m <+: s.spot n := by
  intro sub
  have same := sub.eq_of_length (by simp [spot])
  exact h (s.spot_injective same)

/-- The slots beyond `N` are left alone. Where the log fits into the tree afterwards, it fitted in
before. -/
structure Leaves (s : Place) (N : Nat) (fs fs' : Files) : Prop where
  within : s.In fs' → s.In fs
  beyond : ∀ n, N < n → fs'.node? (s.spot n) = fs.node? (s.spot n)

namespace Leaves

theorem refl (s : Place) (N : Nat) (fs : Files) : s.Leaves N fs fs := ⟨id, fun _ _ => rfl⟩

theorem trans (h : s.Leaves N fs fs') (k : s.Leaves N fs' fs'') : s.Leaves N fs fs'' :=
  ⟨fun there => h.within (k.within there), fun n hn => (k.beyond n hn).trans (h.beyond n hn)⟩

theorem present_of_within (h : s.Leaves N fs fs') (within : s.In fs') (hn : N < n) :
    fs'.present (slot s.path n) = fs.present (slot s.path n) := by
  rw [present_slot within, present_slot (h.within within), h.beyond n hn]

theorem present (h : s.Leaves N fs fs') (named : s.Named) (hn : N < n)
    (there : fs'.present (slot s.path n) = true) : fs.present (slot s.path n) = true := by
  rwa [← h.present_of_within (named.of_present there) hn]

theorem renamed (named : s.Named) (hm : m ≤ N) (hn : n ≤ N) (fs : Files) :
    s.Leaves N fs (fs.renamed (slot s.path m) (slot s.path n)) := by
  unfold Files.renamed
  split
  case h_1 fs' renamed =>
    obtain ⟨a, b, source, target, others⟩ := Files.rename_ok renamed
    obtain ⟨within, rfl⟩ := named.of_locate source
    obtain ⟨-, rfl⟩ := named.of_locate target
    exact ⟨fun _ => within, fun k hk =>
      others _ (incomparable_spots (by omega)) (incomparable_spots (by omega))⟩
  case h_2 => exact .refl s N fs

theorem shift (named : s.Named) {n : Nat} (hn : n < N) (fs : Files) :
    s.Leaves N fs (Logger.shift s.path n fs) := by
  induction n generalizing fs with
  | zero => exact .refl s N fs
  | succ n ih =>
    rw [shift_succ]
    exact (renamed named (m := n + 1) (n := n + 2) (by omega) (by omega) fs).trans
      (ih (by omega) _)

theorem opened (named : s.Named) {f : Bytes → Bytes} {l : Location}
    (h : fs.open? s.path f = .ok (l, fs')) : s.Leaves N fs fs' ∧ s.In fs' := by
  obtain ⟨within, rfl⟩ := named.of_locate (n := 0) (Files.open?_ok h).1
  obtain ⟨free, content, rfl⟩ := Files.open?_inserts h
  have stay (k : Location) (hk : fs.node? k = some .directory) :
      Files.node? (fs.insert (s.spot 0) (.file content)) k = some .directory := by
    rw [Files.node?_insert_of_ne, hk]
    rintro rfl
    exact free hk
  refine ⟨⟨fun _ => within, fun n hn => Files.node?_insert_of_ne ?_ _⟩, named.paths,
    Files.follow_of_directories stay within.leads, stay _ within.ends⟩
  exact s.spot_injective.ne (by omega)

end Leaves

end Place

/-! ## A rotation -/

section Turn

variable {s : Place} {p : Logger × Files} {N : Nat}

theorem leaves_raised (named : s.Named) (path : p.1.path = s.path) (pos : 1 ≤ p.1.maxFiles)
    (hN : p.1.maxFiles ≤ N) : s.Leaves N p.2 (p.1.raised p.2) := by
  rw [raised, path]
  exact (Place.Leaves.shift named (by omega) p.2).trans
    (Place.Leaves.renamed named (m := 0) (n := 1) (by omega) (by omega) _)

/-- A rotation leaves alone what is beyond the generations to be kept; where the log is still open
afterwards, it fits into the tree. -/
theorem leaves_turn (named : s.Named) (path : p.1.path = s.path) (pos : 1 ≤ p.1.maxFiles)
    (hN : p.1.maxFiles ≤ N) :
    s.Leaves N p.2 (turn p).2 ∧ ((turn p).1.handle.isSome = true → s.In (turn p).2) := by
  have raised := leaves_raised named path pos hN
  rw [turn_eq, path]
  split
  case h_1 l fs opened =>
    obtain ⟨leaves, within⟩ := Place.Leaves.opened (N := N) named opened
    exact ⟨raised.trans leaves, fun _ => within⟩
  case h_2 => exact ⟨raised, fun h => by cases h⟩

end Turn

/-! ## A history of calls -/

inductive Call
  | setFile
  | setRotation (maxBytes : Nat) (maxFiles : Int)
  | log (e : Entry)

def made (path : String) (p : Logger × Files) : Call → Logger × Files
  | .setFile => p.1.setFile path p.2
  | .setRotation maxBytes maxFiles => (p.1.setRotation maxBytes maxFiles, p.2)
  | .log e => logged p e

def turnings (path : String) : List Call → Logger × Files → List Int
  | [], _ => []
  | c :: cs, p =>
    (match c with
      | .log e => if turns p e then [p.1.maxFiles] else []
      | _ => []) ++ turnings path cs (made path p c)

structure Settled (path : String) (p : Logger × Files) : Prop where
  kept : 1 ≤ p.1.maxFiles
  path : p.1.handle.isSome = true → ∃ s : Place, s.path = path ∧ s.Named ∧ p.1.path = s.path

section History

variable {path : String} {p : Logger × Files} {N n : Nat} {before : Files}

theorem settled_fresh (path : String) (level : Severity) (fs : Files) :
    Settled path (fresh level, fs) :=
  ⟨show (1 : Int) ≤ 6 by decide, by simp [fresh]⟩

theorem slot_of_lt (h : N < n) : slot path n = generation path n := by
  obtain ⟨k, rfl⟩ : ∃ k, n = k + 1 := ⟨n - 1, by omega⟩
  exact slot_succ path k

theorem turn_path (p : Logger × Files) : (turn p).1.path = p.1.path := by
  rw [turn_eq]
  split <;> rfl

theorem turn_maxFiles (p : Logger × Files) : (turn p).1.maxFiles = p.1.maxFiles := by
  rw [turn_eq]
  split <;> rfl

theorem Settled.due (h : Settled path p) (due : p.1.due = true) :
    ∃ s : Place, s.path = path ∧ s.Named ∧ p.1.path = s.path := by
  rw [Logger.due, Bool.and_eq_true] at due
  exact h.path due.1

theorem Settled.readied (h : Settled path p) : Settled path (readied p) := by
  unfold Logger.readied
  split
  case isTrue due =>
    refine ⟨by rw [turn_maxFiles]; exact h.kept, fun _ => ?_⟩
    rw [turn_path]
    exact h.due due
  case isFalse => exact h

theorem Settled.logged (h : Settled path p) (e : Entry) : Settled path (logged p e) := by
  rw [logged_eq]
  split
  · have ready := h.readied
    exact ⟨by simpa [fst_appended] using ready.kept,
      fun opened => by simpa [fst_appended] using ready.path (by simpa [fst_appended] using opened)⟩
  · exact h

theorem Settled.made (h : Settled path p) (whole : '\x00' ∉ path.toList) (c : Call) :
    Settled path (made path p c) := by
  cases c with
  | setFile =>
    rw [Logger.made, setFile]
    split
    case h_1 l fs opened =>
      obtain ⟨s, same, named⟩ := Place.exists_named whole opened
      exact ⟨h.kept, fun _ => ⟨s, same, named, same.symm⟩⟩
    case h_2 => exact ⟨h.kept, fun opened => by cases opened⟩
  | setRotation maxBytes maxFiles => exact ⟨Int.le_max_right _ _, h.path⟩
  | log e => exact h.logged e

theorem Settled.present_logged (h : Settled path p) {e : Entry}
    (hN : turns p e = true → p.1.maxFiles ≤ N) (hn : N < n)
    (there : (Logger.logged p e).2.present (generation path n) = true) :
    p.2.present (generation path n) = true := by
  rw [← slot_of_lt hn] at there ⊢
  rw [logged_eq] at there
  split at there
  case isTrue visible =>
    rw [Files.present_congr (outline_appended _ e), Logger.readied] at there
    split at there
    case isTrue due =>
      obtain ⟨s, rfl, named, path⟩ := h.due due
      have leaves := (leaves_turn named path h.kept (hN (by simp [turns, visible, due]))).1
      exact leaves.present named hn there
    case isFalse => exact there
  case isFalse => exact there

theorem Settled.present_made (h : Settled path p) (whole : '\x00' ∉ path.toList) (c : Call)
    (hN : ∀ m ∈ turnings path [c] p, m ≤ N) (hn : N < n)
    (there : (Logger.made path p c).2.present (generation path n) = true) :
    p.2.present (generation path n) = true := by
  cases c with
  | setFile =>
    rw [Logger.made, setFile] at there
    split at there
    case h_1 l fs opened =>
      obtain ⟨s, rfl, named⟩ := Place.exists_named whole opened
      rw [← slot_of_lt hn] at there ⊢
      exact (Place.Leaves.opened named opened).1.present named hn there
    case h_2 => exact there
  | setRotation maxBytes maxFiles => exact there
  | log e =>
    refine h.present_logged (fun turned => hN _ ?_) hn there
    simp [turnings, turned]

theorem turnings_cons (path : String) (c : Call) (cs : List Call) (p : Logger × Files) :
    turnings path (c :: cs) p = turnings path [c] p ++ turnings path cs (made path p c) := by
  simp [turnings]

theorem Settled.history (h : Settled path p) (whole : '\x00' ∉ path.toList) (cs : List Call) :
    Settled path (cs.foldl (Logger.made path) p) := by
  induction cs generalizing p with
  | nil => exact h
  | cons c cs ih => exact ih (h.made whole c)

theorem Settled.present_history (h : Settled path p) (whole : '\x00' ∉ path.toList)
    (cs : List Call) (hN : ∀ m ∈ turnings path cs p, m ≤ N) (hn : N < n)
    (there : (cs.foldl (Logger.made path) p).2.present (generation path n) = true) :
    p.2.present (generation path n) = true := by
  induction cs generalizing p with
  | nil => exact there
  | cons c cs ih =>
    rw [turnings_cons] at hN
    obtain ⟨first, rest⟩ := List.forall_mem_append.1 hN
    exact h.present_made whole c first hn (ih (h.made whole c) rest there)

theorem Settled.present_turned (h : Settled path p) {e : Entry} (turned : turns p e = true)
    (opened : (Logger.logged p e).1.handle.isSome = true) (hN : p.1.maxFiles ≤ N) (hn : N < n) :
    (Logger.logged p e).2.present (generation path n) = p.2.present (generation path n) := by
  obtain ⟨visible, due⟩ : e.2.visible p.1.level = true ∧ p.1.due = true := by
    simpa [turns] using turned
  rw [logged_eq, if_pos visible, Logger.readied, if_pos due] at opened ⊢
  rw [Files.present_congr (outline_appended _ e), ← slot_of_lt hn]
  obtain ⟨s, rfl, named, path⟩ := h.due due
  obtain ⟨leaves, within⟩ := leaves_turn named path h.kept hN
  exact leaves.present_of_within (within (by simpa [fst_appended] using opened)) hn

/-- A rotation makes no generation beyond those to be kept, and it removes none, as long as the log
can be opened again. So there is none after it unless there was one in the beginning, or the log has
turned with more generations to be kept. -/
theorem generations_kept (path : String) (whole : '\x00' ∉ path.toList) (level : Severity)
    (before : Files) (cs : List Call) (e : Entry)
    (turned : turns (cs.foldl (made path) (fresh level, before)) e = true) :
    let p := cs.foldl (made path) (fresh level, before)
    let q := logged p e
    (∀ n : Nat, p.1.maxFiles < n → q.2.present (generation path n) = true →
      p.2.present (generation path n) = true) ∧
    (q.1.handle.isSome = true → ∀ n : Nat, p.1.maxFiles < n →
      q.2.present (generation path n) = p.2.present (generation path n)) ∧
    ((∀ n : Nat, p.1.maxFiles < n → before.present (generation path n) = false) →
      (∀ m ∈ turnings path cs (fresh level, before), m ≤ p.1.maxFiles) →
      ∀ n : Nat, p.1.maxFiles < n → q.2.present (generation path n) = false) := by
  intro p q
  have start := settled_fresh path level before
  have settled : Settled path p := start.history whole cs
  obtain ⟨N, hN⟩ : ∃ N : Nat, p.1.maxFiles = N :=
    ⟨p.1.maxFiles.toNat, by have := settled.kept; omega⟩
  rw [hN]
  have none (n : Nat) (hn : (N : Int) < n) (there : q.2.present (generation path n) = true) :
      p.2.present (generation path n) = true :=
    settled.present_logged (N := N) (fun _ => by omega) (by omega) there
  refine ⟨none, fun opened n hn => ?_, fun free lower n hn => ?_⟩
  · exact settled.present_turned (N := N) turned opened (by omega) (by omega)
  · rw [← Bool.not_eq_true]
    intro there
    have first := start.present_history whole cs lower (by omega) (none n hn there)
    simp [free n hn] at first

end History

/-! ## Two logs -/

namespace Place

theorem not_isAtop_spot (s : Place) (n : Nat) : (s.spot (n + 1)).isAtop = false := by
  rw [← Bool.not_eq_true]
  intro atop
  have name : s.name (n + 1) = Location.upward := by
    simp only [Location.isAtop, spot, List.all_append, List.all_cons, List.all_nil, Bool.and_true,
      Bool.and_eq_true, beq_iff_eq] at atop
    exact atop.2
  have chars : s.stem ++ '.' :: Nat.toDigits 10 (n + 1) = ['.', '.'] := by
    simpa [Place.name, ending, Location.upward] using congrArg String.toList name
  -- the last character of the name is a digit
  have digit : '.' ∈ Nat.toDigits 10 (n + 1) := by
    have last := congrArg List.getLast? chars
    rw [List.getLast?_append_of_ne_nil _ (List.cons_ne_nil _ _), List.getLast?_cons_of_ne_nil
      Nat.toDigits_ne_nil] at last
    exact List.mem_of_getLast? last
  have := Nat.isDigit_of_mem_toDigits (by decide) (by decide) digit
  simp at this

theorem Named.absent_empty {s : Place} (h : s.Named) (n : Nat) :
    Files.present ∅ (slot s.path (n + 1)) = false := by
  rw [← Bool.not_eq_true]
  intro there
  rw [present_slot (h.of_present there)] at there
  simp [Files.node?, s.not_isAtop_spot n] at there

end Place

/-- A log that is to keep two generations has turned twice, and turns once more. -/
theorem generations_kept_two :
    let cs : List Call := [.setFile, .setRotation 30 2, .log ("1", ⟨Severity.info, "a"⟩),
      .log ("2", ⟨Severity.info, "b"⟩), .log ("3", ⟨Severity.info, "c"⟩)]
    let e : Entry := ("4", ⟨Severity.info, "d"⟩)
    let p := cs.foldl (made "log") (fresh Severity.info, ∅)
    '\x00' ∉ "log".toList ∧ turns p e = true ∧ p.1.maxFiles = 2 ∧
      turnings "log" cs (fresh Severity.info, ∅) = [2, 2] ∧
      ∀ n : Nat, 2 < n → (logged p e).2.present (generation "log" n) = false := by
  intro cs e p
  have whole : '\x00' ∉ "log".toList := by decide
  have turned : turns p e = true := by decide +kernel
  have maxFiles : p.1.maxFiles = 2 := by decide +kernel
  have turnings : turnings "log" cs (fresh Severity.info, ∅) = [2, 2] := by decide +kernel
  have opened : (Files.open? ∅ "log" id).toOption.isSome = true := by decide +kernel
  have free (n : Nat) (hn : 2 < n) : Files.present ∅ (generation "log" n) = false := by
    cases h : Files.open? ∅ "log" id with
    | error _ =>
      rw [h] at opened
      cases opened
    | ok r =>
      obtain ⟨s, path, named⟩ := Place.exists_named whole h
      obtain ⟨n, rfl⟩ : ∃ k, n = k + 1 := ⟨n - 1, by omega⟩
      rw [← slot_succ, ← path]
      exact named.absent_empty n
  obtain ⟨-, -, none⟩ := generations_kept "log" whole Severity.info ∅ cs e turned
  refine ⟨whole, turned, maxFiles, turnings, fun n hn => ?_⟩
  rw [show (cs.foldl (made "log") (fresh Severity.info, ∅)).1.maxFiles = 2 from maxFiles] at none
  exact none (fun n hn => free n (by omega)) (by simp [turnings]) n (by omega)

/-- A rotation that is to keep one generation does not remove a second one from before. -/
theorem generation_outlives :
    let cs : List Call := [.setFile, .setRotation 30 2, .log ("1", ⟨Severity.info, "a"⟩),
      .log ("2", ⟨Severity.info, "b"⟩), .log ("3", ⟨Severity.info, "c"⟩), .setRotation 30 1]
    let e : Entry := ("4", ⟨Severity.info, "d"⟩)
    let p := cs.foldl (made "log") (fresh Severity.info, ∅)
    turns p e = true ∧ p.1.maxFiles = 1 ∧
      (logged p e).2.present (generation "log" 2) = true := by
  decide +kernel

end Logger

end Courier
