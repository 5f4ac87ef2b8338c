import Courier.Proofs.Slots
import Mathlib.Algebra.Ring.Nat
import Mathlib.Data.List.Infix

namespace Courier.Logger

def counted (es : List Entry) : Nat := (es.map fun e => e.2.text.utf8ByteSize + 30).sum

def content (es : List Entry) : Bytes := es.flatMap fun e => Bytes.ofText (stamped e.1 e.2)

theorem counted_concat (es : List Entry) (e : Entry) :
    counted (es ++ [e]) = counted es + e.2.text.utf8ByteSize + 30 := by
  simp [counted]
  omega

theorem content_append (es es' : List Entry) : content (es ++ es') = content es ++ content es' := by
  simp [content]

theorem content_flatten (ess : List (List Entry)) :
    content ess.flatten = (ess.map content).flatten := by
  induction ess with
  | nil => rfl
  | cons es ess ih => simp [content_append, ih]

structure Roll where
  live : List Entry
  older : List (List Entry)
  deriving DecidableEq, Repr

namespace Roll

variable {maxBytes N turns : Nat} {roll : Roll} {es : List Entry}

def entries (roll : Roll) : List Entry := roll.older.reverse.flatten ++ roll.live

def slot? (roll : Roll) : Nat → Option (List Entry)
  | 0 => some roll.live
  | n + 1 => roll.older[n]?

def turn (N : Nat) (roll : Roll) : Roll := ⟨[], (roll.live :: roll.older).take N⟩

def push (e : Entry) (roll : Roll) : Roll := { roll with live := roll.live ++ [e] }

def add (maxBytes N : Nat) (roll : Roll) (e : Entry) : Roll :=
  (if maxBytes ≤ counted roll.live then roll.turn N else roll).push e

def ofEntries (maxBytes N : Nat) (es : List Entry) : Roll := es.foldl (add maxBytes N) ⟨[], []⟩

theorem entries_push (e : Entry) (roll : Roll) : (roll.push e).entries = roll.entries ++ [e] := by
  simp [entries, push]

theorem entries_turn (N : Nat) (roll : Roll) : (roll.turn N).entries <:+ roll.entries := by
  refine ⟨((roll.live :: roll.older).drop N).reverse.flatten, ?_⟩
  calc ((roll.live :: roll.older).drop N).reverse.flatten ++ (roll.turn N).entries
      = ((roll.live :: roll.older).take N ++ (roll.live :: roll.older).drop N).reverse.flatten := by
        rw [List.reverse_append, List.flatten_append, entries, turn, List.append_nil]
    _ = roll.entries := by rw [List.take_append_drop]; simp [entries]

theorem entries_turn_of_lt (h : roll.older.length < N) : (roll.turn N).entries = roll.entries := by
  have : (roll.live :: roll.older).take N = roll.live :: roll.older :=
    List.take_of_length_le (by simp only [List.length_cons]; omega)
  simp [entries, turn, this]

/-- What holds of a roll that has been given the entries `es`, after so many turns. -/
structure Sound (maxBytes N : Nat) (es : List Entry) (turns : Nat) (roll : Roll) : Prop where
  newest : roll.entries <:+ es
  complete : turns ≤ N → roll.entries = es
  length : roll.older.length = min turns N
  older : ∀ generation ∈ roll.older, maxBytes ≤ counted generation
  live : counted roll.live.dropLast < maxBytes

theorem sound_empty (pos : 1 ≤ maxBytes) : Sound maxBytes N [] 0 ⟨[], []⟩ where
  newest := List.suffix_refl _
  complete _ := rfl
  length := by simp
  older := by simp
  live := pos

theorem Sound.push (h : Sound maxBytes N es turns roll) (room : counted roll.live < maxBytes)
    (e : Entry) : Sound maxBytes N (es ++ [e]) turns (roll.push e) where
  newest := by
    obtain ⟨lost, rfl⟩ := h.newest
    exact ⟨lost, by simp [entries_push]⟩
  complete ht := by rw [entries_push, h.complete ht]
  length := h.length
  older := h.older
  live := by simpa [Roll.push] using room

theorem Sound.turn (h : Sound maxBytes N es turns roll) (pos : 1 ≤ maxBytes)
    (due : maxBytes ≤ counted roll.live) : Sound maxBytes N es (turns + 1) (roll.turn N) where
  newest := (entries_turn N roll).trans h.newest
  complete ht := by
    rw [entries_turn_of_lt (by have := h.length; omega), h.complete (by omega)]
  length := by
    have := h.length
    simp only [Roll.turn, List.length_take, List.length_cons]
    omega
  older generation hg := by
    rcases List.mem_cons.1 (List.mem_of_mem_take hg) with rfl | hg
    · exact due
    · exact h.older generation hg
  live := pos

theorem Sound.add (h : Sound maxBytes N es turns roll) (pos : 1 ≤ maxBytes) (e : Entry) :
    Sound maxBytes N (es ++ [e]) (turns + if maxBytes ≤ counted roll.live then 1 else 0)
      (roll.add maxBytes N e) := by
  unfold Roll.add
  split
  · next due => exact (h.turn pos due).push pos e
  · next room => exact h.push (by omega) e

def row (roll : Roll) (n : Nat) : Option Bytes := (roll.slot? n).map content

theorem row_gapless (roll : Roll) (N : Nat) (h : roll.row (N - 1) = none) : roll.row N = none := by
  match N with
  | 0 => exact h
  | 1 => simp [row, slot?] at h
  | N + 2 =>
    simp only [row, slot?, Option.map_eq_none_iff, Nat.add_one_sub_one,
      List.getElem?_eq_none_iff] at h ⊢
    omega

theorem row_turn (roll : Roll) {n : Nat} (hn : n ≤ N) :
    (roll.turn N).row n = Place.turned roll.row n := by
  match n with
  | 0 => rfl
  | 1 => simp [row, turn, slot?, Place.turned, show 0 < N by omega]
  | n + 2 =>
    simp [row, turn, slot?, Place.turned, show n + 1 < N by omega]

theorem row_push (roll : Roll) (e : Entry) :
    (roll.push e).row = Function.update roll.row 0 (some (content roll.live ++ content [e])) := by
  funext n
  cases n with
  | zero => simp [row, push, slot?, content_append]
  | succ n => simp [row, push, slot?]

theorem filterMap_getElem? {α : Type} {xs : List α} {N : Nat} (h : xs.length ≤ N) :
    (List.range N).filterMap (xs[·]?) = xs := by
  induction xs generalizing N with
  | nil => simp
  | cons x xs ih =>
    obtain ⟨n, rfl⟩ : ∃ n, N = n + 1 := ⟨N - 1, by simp at h; omega⟩
    have := ih (N := n) (by simpa using h)
    simp [List.range_succ_eq_map, List.filterMap_map, this]

theorem flatten_row (h : roll.older.length ≤ N) :
    ((List.range (N + 1)).reverse.filterMap roll.row).flatten = content roll.entries := by
  have : (List.range N).filterMap (fun n => (roll.older[n]?).map content) =
      roll.older.map content := by
    rw [← List.map_filterMap, filterMap_getElem? h]
  simp [List.range_succ_eq_map, List.filterMap_reverse, List.filterMap_map, Function.comp_def, row,
    slot?, this, entries, content_append, content_flatten]

end Roll

/-! ### The calls -/

variable {s : Place} {N maxBytes : Nat} {before fs : Files} {g : Logger} {roll : Roll}

def rotations (g : Logger) : List Entry → Files → Nat
  | [], _ => 0
  | e :: es, fs =>
    (if e.2.visible g.level && g.due then 1 else 0) +
      rotations (g.log e.1 e.2 fs).1 es (g.log e.1 e.2 fs).2.1

structure Holds (s : Place) (maxBytes N : Nat) (before : Files) (level : Severity) (roll : Roll)
    (g : Logger) (fs : Files) : Prop where
  level : g.level = level
  path : g.path = s.path
  maxBytes : g.maxBytes = maxBytes
  maxFiles : g.maxFiles = N
  size : g.size = counted roll.live
  handle : ∃ position, g.handle = some ⟨s.spot 0, false, position⟩ ∧
    ∀ n ∈ position, n = (content roll.live).length
  row : s.Row N before roll.row fs

namespace Holds

variable {level : Severity}

theorem due (h : Holds s maxBytes N before level roll g fs) :
    g.due = decide (maxBytes ≤ counted roll.live) := by
  obtain ⟨position, hh, _⟩ := h.handle
  simp [Logger.due, hh, h.maxBytes, h.size]

theorem read_live (h : Holds s maxBytes N before level roll g fs) :
    fs.read? s.path = some (content roll.live) := by
  rw [← slot_zero s.path, h.row.read (Nat.zero_le N)]
  rfl

theorem write (h : Holds s maxBytes N before level roll g fs) (e : Entry) :
    ∃ g' fs', g.write e.1 e.2 fs = (g', fs', []) ∧
      Holds s maxBytes N before level (roll.push e) g' fs' := by
  obtain ⟨position, hh, hp⟩ := h.handle
  have live : fs.node? (s.spot 0) = some (.file (content roll.live)) :=
    h.row.slots 0 (Nat.zero_le N)
  -- With or without a position, the handle is at the end of the live file.
  have put : written (content roll.live) (Bytes.ofText (stamped e.1 e.2)) position =
      content roll.live ++ content [e] := by
    cases position with
    | none => simp [written, content]
    | some n => simp only [written, hp n rfl, placed_length]; simp [content]
  simp only [Logger.write, hh, live, put]
  refine ⟨_, _, rfl, ⟨h.level, h.path, h.maxBytes, h.maxFiles, ?_, ?_, ?_⟩⟩
  · simp [Roll.push, counted_concat, h.size]
  · refine ⟨_, rfl, fun n hn => ?_⟩
    obtain ⟨m, hm, rfl⟩ := Option.map_eq_some_iff.1 hn
    simp [hp m hm, Roll.push, content]
  · exact roll.row_push e ▸ h.row.insert (Nat.zero_le N) _

theorem rotate (h : Holds s maxBytes N before level roll g fs) (pos : 1 ≤ N) :
    ∃ g' fs', g.rotate fs = (g', fs', []) ∧
      Holds s maxBytes N before level (roll.turn N) g' fs' := by
  obtain ⟨fs₁, fs₂, h₁, h₂, row⟩ := h.row.turn pos rfl (roll.row_gapless N)
  have top : (g.maxFiles - 1).toNat = N - 1 := by rw [h.maxFiles]; omega
  simp only [Logger.rotate, h.path, top, h₁, h₂]
  refine ⟨_, _, rfl, ⟨h.level, rfl, h.maxBytes, h.maxFiles, rfl, ?_, ?_⟩⟩
  · exact ⟨_, rfl, by simp [Roll.turn, content]⟩
  · exact row.congr fun n hn => (roll.row_turn hn).symm

theorem log (h : Holds s maxBytes N before level roll g fs) (pos : 1 ≤ N) {e : Entry}
    (visible : e.2.visible level = true) :
    ∃ g' fs', g.log e.1 e.2 fs = (g', fs', ⟨[], []⟩) ∧
      Holds s maxBytes N before level (roll.add maxBytes N e) g' fs' := by
  by_cases due : maxBytes ≤ counted roll.live
  · obtain ⟨g₁, fs₁, h₁, turned⟩ := h.rotate pos
    obtain ⟨g₂, fs₂, h₂, pushed⟩ := turned.write e
    exact ⟨g₂, fs₂, by simp [Logger.log, h.level, visible, h.due, due, h₁, h₂],
      by simpa [Roll.add, due] using pushed⟩
  · obtain ⟨g₁, fs₁, h₁, pushed⟩ := h.write e
    exact ⟨g₁, fs₁, by simp [Logger.log, h.level, visible, h.due, due, h₁],
      by simpa [Roll.add, due] using pushed⟩

theorem read_log (h : Holds s maxBytes N before level roll g fs) (pos : 1 ≤ N) {e : Entry}
    (visible : e.2.visible level = true) :
    (g.log e.1 e.2 fs).2.1.read? s.path = some (content (roll.add maxBytes N e).live) ∧
      ∀ n < N, (g.log e.1 e.2 fs).2.1.read? (slot s.path (n + 1)) =
        (roll.add maxBytes N e).row (n + 1) := by
  obtain ⟨g', fs', hl, h'⟩ := h.log pos visible
  rw [hl]
  exact ⟨h'.read_live, fun n hn => h'.row.read (by omega)⟩

theorem log_below (h : Holds s maxBytes N before level roll g fs) {e : Entry}
    (below : e.2.visible level = false) : g.log e.1 e.2 fs = (g, fs, ⟨[], []⟩) := by
  simp [Logger.log, h.level, below]

/-- What a run of calls comes to: the roll of its visible entries, turned as often as the log. -/
theorem logEach (h : Holds s maxBytes N before level roll g fs) (pos : 1 ≤ N) (hb : 1 ≤ maxBytes)
    {given : List Entry} {turns : Nat} (sound : roll.Sound maxBytes N given turns)
    (es : List Entry) :
    ∃ g' fs' roll', g.logEach es fs = (g', fs', ⟨[], []⟩) ∧
      roll' = (es.filter fun e => e.2.visible level).foldl (Roll.add maxBytes N) roll ∧
      Holds s maxBytes N before level roll' g' fs' ∧
      roll'.Sound maxBytes N (given ++ es.filter fun e => e.2.visible level)
        (turns + g.rotations es fs) := by
  -- By induction on the calls; the roll and the turns so far are what one call hands to the next.
  induction es generalizing g fs roll given turns with
  | nil => exact ⟨g, fs, roll, rfl, rfl, h, by simpa [rotations] using sound⟩
  | cons e es ih =>
    cases hv : e.2.visible level with
    | false =>
      have hl := h.log_below hv
      obtain ⟨g', fs', roll', hr, hroll, h', sound'⟩ := ih h sound
      exact ⟨g', fs', roll', by simp [Logger.logEach, hl, hr], by simpa [hv] using hroll, h',
        by simpa [hv, rotations, hl, h.level] using sound'⟩
    | true =>
      obtain ⟨g₁, fs₁, hl, h₁⟩ := h.log pos hv
      obtain ⟨g', fs', roll', hr, hroll, h', sound'⟩ := ih h₁ (sound.add hb e)
      refine ⟨g', fs', roll', by simp [Logger.logEach, hl, hr], by simpa [hv] using hroll, h', ?_⟩
      simpa [hv, rotations, hl, h.level, h.due, Nat.add_assoc] using sound'

end Holds

theorem holds_setFile (g : Logger) {path : String} (maxBytes : Nat) {N : Nat} {before : Files}
    (pos : 1 ≤ N) (room : Room path N before) :
    ∃ s : Place, s.path = path ∧
      Holds s maxBytes N before g.level ⟨[], []⟩
        ((g.setFile path before).1.setRotation maxBytes N) (g.setFile path before).2 := by
  obtain ⟨s, rfl, fits⟩ := room.site
  obtain ⟨fs, ho, row⟩ := (Place.Row.start fits).open? id
  have size : fs.size? (s.spot 0) = some 0 := by
    have := row.slots 0 (Nat.zero_le N)
    simp_all [Files.size?]
  refine ⟨s, rfl, ?_⟩
  simp only [setFile, ho, setRotation, size]
  refine ⟨rfl, rfl, rfl, by simp; omega, rfl, ⟨none, rfl, by simp⟩, row.congr fun n _ => ?_⟩
  cases n <;> simp [Roll.row, Roll.slot?, content]

/-- A log that has been given the entries `es`, with so many rotations, and its files in a tree that
was `before` when it began. -/
structure Rotated (path : String) (maxBytes N : Nat) (before : Files) (es : List Entry)
    (rotations : Nat) (roll : Roll) (g : Logger) (fs : Files) : Prop
    extends roll.Sound maxBytes N es rotations where
  files : ∀ n ≤ N, fs.read? (slot path n) = (roll.slot? n).map content
  beyond : ∀ n, N < n → fs.read? (slot path n) = before.read? (slot path n)
  others : ∀ l, (∀ n ≤ N, before.locate (slot path n) ≠ .ok l) → fs.node? l = before.node? l
  reading : ((List.range (N + 1)).reverse.filterMap fun n => fs.read? (slot path n)).flatten =
    content roll.entries
  size : g.size = counted roll.live
  turns : ∀ e : Entry, e.2.visible g.level = true → maxBytes ≤ g.size →
    (g.log e.1 e.2 fs).2.1.read? path = some (content [e]) ∧
      ∀ n < N, (g.log e.1 e.2 fs).2.1.read? (slot path (n + 1)) = fs.read? (slot path n)
  grows : ∀ e : Entry, e.2.visible g.level = true → g.size < maxBytes →
    (g.log e.1 e.2 fs).2.1.read? path = some (content (roll.live ++ [e])) ∧
      ∀ n < N, (g.log e.1 e.2 fs).2.1.read? (slot path (n + 1)) = fs.read? (slot path (n + 1))
  below : ∀ e : Entry, e.2.visible g.level = false → (g.log e.1 e.2 fs).2.1 = fs

theorem Holds.rotated {level : Severity} {es : List Entry} {turns : Nat}
    (h : Holds s maxBytes N before level roll g fs) (pos : 1 ≤ N)
    (sound : roll.Sound maxBytes N es turns) :
    Rotated s.path maxBytes N before es turns roll g fs where
  toSound := sound
  files _ hn := h.row.read hn
  beyond _ hn := h.row.read_beyond hn
  others l hl := h.row.others l fun n hn e => hl n hn <| by
    rw [h.row.fits.locate, h.row.fits.short n hn, e]
    rfl
  reading := by
    rw [← Roll.flatten_row (show roll.older.length ≤ N by have := sound.length; omega)]
    refine congrArg _ (List.filterMap_congr fun n hn => h.row.read ?_)
    simp only [List.mem_reverse, List.mem_range] at hn
    omega
  size := h.size
  turns e hv due := by
    obtain ⟨live, older⟩ := h.read_log pos (h.level ▸ hv)
    rw [Roll.add, if_pos (h.size ▸ due)] at live older
    refine ⟨live, fun n hn => ?_⟩
    rw [older n hn, h.row.read (by omega), Roll.row_push]
    simpa [Place.turned] using roll.row_turn (N := N) (n := n + 1) (by omega)
  grows e hv room := by
    obtain ⟨live, older⟩ := h.read_log pos (h.level ▸ hv)
    rw [Roll.add, if_neg (by rw [← h.size]; omega)] at live older
    refine ⟨live, fun n hn => ?_⟩
    rw [older n hn, h.row.read (by omega), Roll.row_push]
    simp
  below e hv := by rw [h.log_below (h.level ▸ hv)]

/-- Rotation keeps the newest entries, whole and in order. A log begins at a path where there is
room for its files and is given entries one by one: the visible ones go to its files, the newest are
still there, and nothing goes anywhere else. -/
theorem newest_entries_kept (g : Logger) (path : String) (maxBytes N : Nat) (before : Files)
    (es : List Entry) (threshold : 1 ≤ maxBytes) (generations : 1 ≤ N)
    (room : Room path N before) :
    let opened := g.setFile path before
    let start := opened.1.setRotation maxBytes N
    let run := start.logEach es opened.2
    let kept := es.filter fun e => e.2.visible g.level
    run.2.2 = ⟨[], []⟩ ∧
      Rotated path maxBytes N before kept (start.rotations es opened.2)
        (Roll.ofEntries maxBytes N kept) run.1 run.2.1 := by
  obtain ⟨s, rfl, start⟩ := holds_setFile g maxBytes generations room
  obtain ⟨g', fs', roll, hr, rfl, holds, sound⟩ :=
    start.logEach generations threshold (Roll.sound_empty threshold) es
  intro opened start run kept
  have : run = (g', fs', ⟨[], []⟩) := hr
  rw [this]
  exact ⟨rfl, holds.rotated generations (by simpa using sound)⟩

theorem newest_entries_kept_turning :
    let opened := (fresh Severity.info).setFile "log" ∅
    let start := opened.1.setRotation 40 (1 : Nat)
    let first : Entry := ("1", ⟨Severity.info, "first line"⟩)
    let unseen : Entry := ("2", ⟨Severity.debug, "not to be seen"⟩)
    let second : Entry := ("3", ⟨Severity.error, "second line"⟩)
    let third : Entry := ("4", ⟨Severity.info, "third line"⟩)
    let run := start.logEach [first, unseen, second, third] opened.2
    1 ≤ 40 ∧ 1 ≤ 1 ∧ Room "log" 1 ∅ ∧ run.2.2 = ⟨[], []⟩ ∧
      Rotated "log" 40 1 ∅ [first, second, third] 2 ⟨[third], [[second]]⟩ run.1 run.2.1 := by
  intro opened start first unseen second third run
  have room : Room "log" 1 ∅ := by
    refine ⟨by decide, ⟨["log"], _, rfl, rfl⟩, fun n h₁ hn => ?_⟩
    obtain rfl : n = 1 := by omega
    exact ⟨["log.1"], rfl, rfl⟩
  have visible : [first, unseen, second, third].filter (fun e => e.2.visible Severity.info) =
      [first, second, third] := by decide
  have turns : start.rotations [first, unseen, second, third] opened.2 = 2 := by decide +kernel
  have roll : Roll.ofEntries 40 1 [first, second, third] = ⟨[third], [[second]]⟩ := by
    decide +kernel
  have kept := newest_entries_kept (fresh Severity.info) "log" 40 1 ∅
    [first, unseen, second, third] (by decide) (by decide) room
  dsimp only at kept
  rw [show (fresh Severity.info).level = Severity.info from rfl, visible, roll, turns] at kept
  dsimp only [run, start, opened]
  exact ⟨by decide, by decide, room, kept⟩

end Courier.Logger
