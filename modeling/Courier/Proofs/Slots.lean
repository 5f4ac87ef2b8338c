import Courier.Log.Rotation
import Mathlib.Data.List.TakeWhile
import Mathlib.Logic.Function.Basic

/-!
The files of a log. The live file and its generations have their names in one directory, side by
side: paths that differ only behind the name of the live file. What a log does to its files it does
to a row of contents, and to nothing else in the tree.
-/

namespace Courier

namespace Text

theorem pieces_append (sep : Char) (cs : List Char) :
    ∃ before last, ∀ ds, sep ∉ ds → pieces sep (cs ++ ds) = before ++ [last ++ ds] := by
  induction cs with
  | nil => exact ⟨[], [], fun ds h => by simp [pieces_of_not_mem h]⟩
  | cons c cs ih =>
    obtain ⟨before, last, h⟩ := ih
    by_cases hc : c = sep
    · exact ⟨[] :: before, last, fun ds hd => by simp [pieces, hc, h ds hd]⟩
    · cases before with
      | nil => exact ⟨[], c :: last, fun ds hd => by simp [pieces, hc, h ds hd]⟩
      | cons p ps => exact ⟨(c :: p) :: ps, last, fun ds hd => by simp [pieces, hc, h ds hd]⟩

theorem beforeNul_eq_self {s : String} (h : '\x00' ∉ s.toList) : beforeNul s = s := by
  have : s.toList.takeWhile (· != '\x00') = s.toList :=
    List.takeWhile_eq_self_iff.2 fun c hc => by
      have : c ≠ '\x00' := fun e => h (e ▸ hc)
      simpa using this
  rw [beforeNul, this, String.ofList_toList]

end Text

namespace Path

theorem step?_of_two_lt {cs : List Char} (h : 2 < cs.length) :
    step? cs = some (.into (String.ofList cs)) := by
  match cs, h with
  | _ :: _ :: _ :: _, _ => simp [step?]

theorem step?_isSome {cs : List Char} (h : cs ≠ []) : (step? cs).isSome := by
  unfold step?
  split <;> simp_all

theorem step?_into {cs : List Char} {name : String} (h : step? cs = some (.into name)) :
    name = String.ofList cs := by
  unfold step? at h
  split at h <;> simp_all

end Path

namespace Files

theorem bind_ok {α β : Type} {x : Except Obstacle α} {f : α → Except Obstacle β} {b : β}
    (h : x.bind f = .ok b) : ∃ a, x = .ok a ∧ f a = .ok b := by
  cases x with
  | error e => cases h
  | ok a => exact ⟨a, rfl, h⟩

theorem isAtop_eq_false {fs : Files} {l : Location} (h : fs.node? l = none) :
    l.isAtop = false := by
  cases hl : l.isAtop with
  | false => rfl
  | true => simp [node?, hl] at h

theorem node?_insert {fs : Files} {l : Location} (h : l.isAtop = false) (n : Node)
    (k : Location) : node? (fs.insert l n) k = if k = l then some n else fs.node? k := by
  by_cases hk : k = l
  · simp [node?, hk, h]
  · have : compare l k ≠ .eq := fun he => hk (Std.LawfulEqCmp.eq_of_compare he).symm
    simp [node?, hk, Std.ExtTreeMap.getElem?_insert, this]

theorem node?_erase {fs : Files} {l : Location} (h : l.isAtop = false) (k : Location) :
    node? (fs.erase l) k = if k = l then none else fs.node? k := by
  by_cases hk : k = l
  · simp [node?, hk, h]
  · have : compare l k ≠ .eq := fun he => hk (Std.LawfulEqCmp.eq_of_compare he).symm
    simp [node?, hk, Std.ExtTreeMap.getElem?_erase, this]

def read? (fs : Files) (path : String) : Option Bytes :=
  match fs.locate path with
  | .error _ => none
  | .ok l =>
    match fs.node? l with
    | some (.file content) => some content
    | _ => none

theorem rename_file {fs : Files} {source target : String} {a b : Location} {content : Bytes}
    (hs : fs.locate source = .ok a) (ht : fs.locate target = .ok b) (hne : a ≠ b)
    (ha : fs.node? a = some (.file content)) (hb : fs.node? b ≠ some .directory) :
    fs.rename source target =
      .ok (Std.ExtTreeMap.insert (Std.ExtTreeMap.erase fs a) b (.file content)) := by
  have short : Path.isTooLong target = false := by
    cases hl : Path.isTooLong target with
    | false => rfl
    | true => simp [locate, hl] at ht
  simp only [rename, hs, short, ha, ht, hne, bind, Except.bind]
  match h : fs.node? b with
  | none => rfl
  | some (.file _) => rfl
  | some .directory => exact absurd h hb

theorem rename_vacant {fs : Files} {source : String} {a : Location} (target : String)
    (hs : fs.locate source = .ok a) (ha : fs.node? a = none) :
    ∃ obstacle, fs.rename source target = .error obstacle := by
  simp only [rename, hs, ha, bind, Except.bind]
  split <;> exact ⟨_, rfl⟩

theorem open?_ok {fs fs' : Files} {path : String} {f : Bytes → Bytes} {l : Location}
    (h : fs.open? path f = .ok (l, fs')) :
    fs.locate path = .ok l ∧ (Path.ofText path).slashed = false := by
  obtain ⟨k, hl, h⟩ := bind_ok h
  cases hs : (Path.ofText path).slashed <;> simp only [hs] at h
  · split at h <;> cases h <;> exact ⟨hl, rfl⟩
  · split at h <;> cases h

theorem take_ok {fs : Files} {l m : Location} {s : Path.Step} (h : fs.take l s = .ok m) :
    fs.node? l = some .directory ∧
      match s with
      | .stay => m = l
      | .up => m = l.parent
      | .into name => m = l ++ [name] := by
  unfold take at h
  split at h
  · cases h
  · cases h
  · next hl =>
    refine ⟨hl, ?_⟩
    cases s with
    | stay => cases h; rfl
    | up => cases h; rfl
    | into name =>
      simp only at h
      split at h
      · cases h
      · cases h; rfl

theorem follow_of_directories {fs fs' : Files}
    (stay : ∀ l, fs.node? l = some .directory → fs'.node? l = some .directory)
    {ss : List Path.Step} {l m : Location} (h : fs.follow l ss = .ok m) :
    fs'.follow l ss = .ok m := by
  induction ss generalizing l with
  | nil => exact h
  | cons s ss ih =>
    obtain ⟨k, ht, h⟩ := bind_ok h
    have hl := (take_ok ht).1
    have : fs'.take l s = .ok k := by simpa [take, hl, stay l hl] using ht
    rw [follow, this]
    exact ih h

def Rooted (fs : Files) (l : Location) : Prop :=
  ∀ k, k <+: l → k ≠ l → fs.node? k = some .directory

theorem rooted_of_isAtop {fs : Files} {l : Location} (h : l.isAtop = true) : fs.Rooted l := by
  rintro k ⟨rest, rfl⟩ -
  have : Location.isAtop k = true := by
    rw [Location.isAtop, List.all_append, Bool.and_eq_true] at h
    exact h.1
  simp [node?, this]

theorem Rooted.child {fs : Files} {l : Location} (h : fs.Rooted l)
    (hl : fs.node? l = some .directory) (name : String) : fs.Rooted (l ++ [name]) := by
  intro k hk hne
  by_cases hkl : k = l
  · exact hkl ▸ hl
  · rcases List.prefix_concat_iff.1 hk with rfl | hk
    · exact absurd rfl hne
    · exact h k hk hkl

theorem Rooted.parent {fs : Files} {l : Location} (h : fs.Rooted l) :
    fs.Rooted l.parent ∧ fs.node? l.parent = some .directory := by
  unfold Location.parent
  split
  · next hl =>
    have : Location.isAtop (l ++ [Location.upward]) = true := by simpa [Location.isAtop] using hl
    exact ⟨rooted_of_isAtop this, by simp [node?, this]⟩
  · next hl =>
    have hlen : l.dropLast.length < l.length := by
      cases l with
      | nil => simp [Location.isAtop] at hl
      | cons => simp
    have hne : ∀ k, k <+: l.dropLast → k ≠ l := fun k hk e => by
      have := (e ▸ hk).length_le
      omega
    have hl := List.dropLast_prefix l
    exact ⟨fun k hk _ => h k (hk.trans hl) (hne k hk), h _ hl (hne _ (List.prefix_refl _))⟩

theorem Rooted.follow {fs : Files} {ss : List Path.Step} {l m : Location} (hl : fs.Rooted l)
    (h : fs.follow l ss = .ok m) : fs.Rooted m := by
  induction ss generalizing l with
  | nil => cases h; exact hl
  | cons s ss ih =>
    obtain ⟨k, ht, hm⟩ := bind_ok h
    obtain ⟨hd, hk⟩ := take_ok ht
    cases s with
    | stay => exact ih (hk ▸ hl) hm
    | up => exact ih (hk ▸ hl.parent.1) hm
    | into name => exact ih (hk ▸ hl.child hd name) hm

theorem follow_named {fs : Files} {ss : List Path.Step} {m : Location}
    (h : fs.follow [] ss = .ok m) (hm : fs.node? m ≠ some .directory) :
    ∃ way directory name, ss = way ++ [.into name] ∧ fs.follow [] way = .ok directory ∧
      fs.node? directory = some .directory := by
  rcases List.eq_nil_or_concat ss with rfl | ⟨way, s, rfl⟩
  · cases h
    simp [node?, Location.isAtop] at hm
  · rw [List.concat_eq_append, follow_append] at h
    obtain ⟨directory, hw, h⟩ := bind_ok h
    obtain ⟨k, ht, h⟩ := bind_ok h
    cases h
    have root : fs.Rooted directory := (rooted_of_isAtop rfl).follow hw
    obtain ⟨hd, hk⟩ := take_ok ht
    -- Any other last step comes to a directory.
    cases s with
    | stay => simp [hk, hd] at hm
    | up => simp [hk, root.parent.2] at hm
    | into name => exact ⟨way, directory, name, by simp, hw, hd⟩

end Files

namespace Logger

def slot (path : String) : Nat → String
  | 0 => path
  | n + 1 => generation path (n + 1)

@[simp] theorem slot_zero (path : String) : slot path 0 = path := rfl

theorem slot_succ (path : String) (n : Nat) : slot path (n + 1) = generation path (n + 1) := rfl

def ending : Nat → List Char
  | 0 => []
  | n + 1 => '.' :: Nat.toDigits 10 (n + 1)

theorem toList_slot (path : String) (n : Nat) :
    (slot path n).toList = path.toList ++ ending n := by
  cases n with
  | zero => simp [slot, ending]
  | succ n => simp [slot, generation, ending, toString, Nat.repr_eq_ofList_toDigits]

theorem ending_injective : Function.Injective ending := by
  intro m n h
  match m, n with
  | 0, 0 => rfl
  | 0, _ + 1 => simp [ending] at h
  | _ + 1, 0 => simp [ending] at h
  | m + 1, n + 1 =>
    have hd : Nat.toDigits 10 (m + 1) = Nat.toDigits 10 (n + 1) := by simpa [ending] using h
    calc m + 1 = Nat.ofDigitChars 10 (Nat.toDigits 10 (m + 1)) 0 :=
          Nat.ofDigitChars_ten_toDigits.symm
      _ = n + 1 := by rw [hd, Nat.ofDigitChars_ten_toDigits]

theorem not_mem_ending {c : Char} (hd : c.isDigit = false) (hc : c ≠ '.') (n : Nat) :
    c ∉ ending n := by
  cases n with
  | zero => simp [ending]
  | succ n =>
    intro h
    rcases List.mem_cons.1 h with rfl | h
    · exact hc rfl
    · simp [Nat.isDigit_of_mem_toDigits (by decide) (by decide) h] at hd

theorem two_le_length_ending (n : Nat) : 2 ≤ (ending (n + 1)).length := by
  have := List.length_pos_iff.2 (Nat.toDigits_ne_nil (n := n + 1) (b := 10))
  simp only [ending, List.length_cons]
  omega

theorem ofText_slot {path : String} (whole : '\x00' ∉ path.toList) {way : List Path.Step}
    {name : String} (named : (Path.ofText path).steps = way ++ [.into name])
    (unslashed : (Path.ofText path).slashed = false) :
    ∃ stem, ∀ n, Path.ofText (slot path n) =
      ⟨way ++ [.into (String.ofList (stem ++ ending n))], false⟩ := by
  obtain ⟨before, stem, hp⟩ := Text.pieces_append '/' path.toList
  -- An ending has neither a slash nor a NUL, so it goes to the last piece of the path.
  have parts (n : Nat) : Path.ofText (slot path n) =
      ⟨before.filterMap Path.step? ++ (Path.step? (stem ++ ending n)).toList,
        stem ++ ending n == []⟩ := by
    have : '\x00' ∉ (slot path n).toList := by
      simp [toList_slot, whole, not_mem_ending (c := '\x00') rfl (by decide)]
    rw [Path.ofText, Text.beforeNul_eq_self this, toList_slot,
      hp _ (not_mem_ending (c := '/') rfl (by decide) n)]
    cases h : Path.step? (stem ++ ending n) <;> simp [h]
  have first := parts 0
  rw [slot_zero] at first
  have hne : stem ≠ [] := by simpa [first, ending] using unslashed
  obtain ⟨s, hs⟩ := Option.isSome_iff_exists.1 (Path.step?_isSome hne)
  have hw : before.filterMap Path.step? ++ [s] = way ++ [.into name] := by
    simpa [first, ending, hs] using named
  obtain ⟨rfl, hs'⟩ := List.append_inj' hw rfl
  refine ⟨stem, fun n => ?_⟩
  have step : Path.step? (stem ++ ending n) = some (.into (String.ofList (stem ++ ending n))) := by
    cases n with
    | zero =>
      obtain rfl : s = .into name := by simpa using hs'
      simpa [ending, Path.step?_into hs] using hs
    | succ n =>
      refine Path.step?_of_two_lt ?_
      have := two_le_length_ending n
      have := List.length_pos_iff.2 hne
      simp only [List.length_append]
      omega
  simp [parts n, step, hne]

/-- Where the files of a log are: in one directory, with names that begin alike. -/
structure Place where
  path : String
  way : List Path.Step
  directory : Location
  stem : List Char

namespace Place

variable {s : Place} {N : Nat} {before fs : Files} {row : Nat → Option Bytes}

def name (s : Place) (n : Nat) : String := String.ofList (s.stem ++ ending n)

def spot (s : Place) (n : Nat) : Location := s.directory ++ [s.name n]

def isLong (s : Place) (n : Nat) : Bool :=
  Path.isTooLong (slot s.path n) || Path.longestName < (s.name n).utf8ByteSize

theorem spot_injective (s : Place) : Function.Injective s.spot := fun m n h =>
  ending_injective (by simpa [spot, name, String.ofList_inj] using h)

structure In (s : Place) (fs : Files) : Prop where
  paths : ∀ n, Path.ofText (slot s.path n) = ⟨s.way ++ [.into (s.name n)], false⟩
  leads : fs.follow [] s.way = .ok s.directory
  ends : fs.node? s.directory = some .directory

theorem In.locate (h : s.In fs) (n : Nat) : fs.locate (slot s.path n) =
    if s.isLong n then .error .nameTooLong else .ok (s.spot n) := by
  simp [Files.locate, h.paths n, Files.follow_append, h.leads, Except.bind, Files.follow,
    Files.take, h.ends, isLong, spot]
  split <;> split <;> simp_all

structure Fits (s : Place) (N : Nat) (fs : Files) : Prop extends s.In fs where
  short : ∀ n ≤ N, s.isLong n = false
  vacant : ∀ n ≤ N, fs.node? (s.spot n) = none

/-- A log with a row of contents in its first slots, in a tree that is `before` otherwise. -/
structure Row (s : Place) (N : Nat) (before : Files) (row : Nat → Option Bytes) (fs : Files) :
    Prop where
  fits : s.Fits N before
  slots : ∀ n ≤ N, fs.node? (s.spot n) = (row n).map .file
  others : ∀ l, (∀ n ≤ N, l ≠ s.spot n) → fs.node? l = before.node? l

namespace Row

theorem start (fits : s.Fits N before) : s.Row N before (fun _ => none) before :=
  ⟨fits, fits.vacant, fun _ _ => rfl⟩

theorem directories (h : s.Row N before row fs) {l : Location}
    (hl : before.node? l = some .directory) : fs.node? l = some .directory := by
  rw [h.others l fun n hn e => ?_, hl]
  rw [e, h.fits.vacant n hn] at hl
  cases hl

theorem within (h : s.Row N before row fs) : s.In fs :=
  ⟨h.fits.paths, Files.follow_of_directories (fun _ => h.directories) h.fits.leads,
    h.directories h.fits.ends⟩

theorem locate (h : s.Row N before row fs) {n : Nat} (hn : n ≤ N) :
    fs.locate (slot s.path n) = .ok (s.spot n) := by
  simp [h.within.locate, h.fits.short n hn]

theorem read (h : s.Row N before row fs) {n : Nat} (hn : n ≤ N) :
    fs.read? (slot s.path n) = row n := by
  rw [Files.read?, h.locate hn]
  cases hr : row n <;> simp [h.slots n hn, hr]

theorem read_beyond (h : s.Row N before row fs) {n : Nat} (hn : N < n) :
    fs.read? (slot s.path n) = before.read? (slot s.path n) := by
  have : fs.node? (s.spot n) = before.node? (s.spot n) := h.others _ fun k hk e => by
    have := s.spot_injective e
    omega
  rw [Files.read?, Files.read?, h.within.locate, h.fits.locate]
  cases s.isLong n <;> simp [this]

theorem isAtop (h : s.Row N before row fs) {n : Nat} (hn : n ≤ N) :
    (s.spot n).isAtop = false := Files.isAtop_eq_false (h.fits.vacant n hn)

theorem insert (h : s.Row N before row fs) {n : Nat} (hn : n ≤ N) (content : Bytes) :
    s.Row N before (Function.update row n (some content))
      (Std.ExtTreeMap.insert fs (s.spot n) (.file content)) where
  fits := h.fits
  slots k hk := by
    simp only [Files.node?_insert (h.isAtop hn), Function.update_apply, s.spot_injective.eq_iff]
    split <;> simp [h.slots k hk]
  others l hl := by rw [Files.node?_insert (h.isAtop hn), if_neg (hl n hn), h.others l hl]

theorem erase (h : s.Row N before row fs) {n : Nat} (hn : n ≤ N) :
    s.Row N before (Function.update row n none) (Std.ExtTreeMap.erase fs (s.spot n)) where
  fits := h.fits
  slots k hk := by
    simp only [Files.node?_erase (h.isAtop hn), Function.update_apply, s.spot_injective.eq_iff]
    split <;> simp [h.slots k hk]
  others l hl := by rw [Files.node?_erase (h.isAtop hn), if_neg (hl n hn), h.others l hl]

end Row

def moved (row : Nat → Option Bytes) (m n : Nat) : Nat → Option Bytes :=
  Function.update (Function.update row m none) n (row m)

theorem Row.rename (h : s.Row N before row fs) {m n : Nat} (hm : m ≤ N) (hn : n ≤ N)
    (hne : m ≠ n) {content : Bytes} (hc : row m = some content) :
    ∃ fs', fs.rename (slot s.path m) (slot s.path n) = .ok fs' ∧
      s.Row N before (moved row m n) fs' := by
  have source : fs.node? (s.spot m) = some (.file content) := by simp [h.slots m hm, hc]
  have target : fs.node? (s.spot n) ≠ some .directory := by
    cases hr : row n <;> simp [h.slots n hn, hr]
  exact ⟨_, Files.rename_file (h.locate hm) (h.locate hn) (s.spot_injective.ne hne) source target,
    by simpa [moved, hc] using (h.erase hm).insert hn content⟩

def shifted : Nat → (Nat → Option Bytes) → Nat → Option Bytes
  | 0, row => row
  | n + 1, row => shifted n (if (row (n + 1)).isSome then moved row (n + 1) (n + 2) else row)

theorem Row.shift (h : s.Row N before row fs) {n : Nat} (hn : n < N) :
    s.Row N before (shifted n row) (Logger.shift s.path n fs) := by
  induction n generalizing row fs with
  | zero => exact h
  | succ n ih =>
    have hn' : n < N := by omega
    cases hc : row (n + 1) with
    | none =>
      obtain ⟨_, hr⟩ := Files.rename_vacant (slot s.path (n + 2)) (h.locate (n := n + 1) (by omega))
        (by simp [h.slots (n + 1) (by omega), hc])
      rw [slot_succ, slot_succ] at hr
      simp only [Logger.shift, shifted, hc, hr]
      exact ih h hn'
    | some content =>
      obtain ⟨fs', hr, h'⟩ := h.rename (n := n + 2) (by omega) (by omega) (by omega) hc
      rw [slot_succ, slot_succ] at hr
      simp only [Logger.shift, shifted, hc, hr]
      exact ih h' hn'

@[simp] theorem shifted_zero (n : Nat) (row : Nat → Option Bytes) : shifted n row 0 = row 0 := by
  induction n generalizing row with
  | zero => rfl
  | succ n ih => rw [shifted, ih]; split <;> simp [moved]

theorem shifted_of_lt {n k : Nat} (row : Nat → Option Bytes) (h : n + 1 < k) :
    shifted n row k = row k := by
  induction n generalizing row with
  | zero => rfl
  | succ n ih =>
    rw [shifted, ih _ (by omega)]
    split
    · simp [moved, show k ≠ n + 2 by omega, show k ≠ n + 1 by omega]
    · rfl

theorem shifted_succ {n k : Nat} (gapless : row n = none → row (n + 1) = none) (pos : 1 ≤ k)
    (hk : k ≤ n) : shifted n row (k + 1) = row k := by
  induction n generalizing row with
  | zero => omega
  | succ n ih =>
    -- The first move leaves the slot it moves from empty, so the others find no gap before it.
    rw [shifted]
    rcases Nat.lt_or_eq_of_le hk with hk | rfl
    · rw [ih _ (by omega)]
      · split
        · simp [moved, show k ≠ n + 2 by omega, show k ≠ n + 1 by omega]
        · rfl
      · intro _
        cases hr : row (n + 1) <;> simp [moved, hr]
    · rw [shifted_of_lt _ (by omega)]
      cases hr : row (n + 1) with
      | none => simpa [hr] using gapless hr
      | some content => simp [moved, hr]

theorem Row.congr (h : s.Row N before row fs) {row' : Nat → Option Bytes}
    (e : ∀ n ≤ N, row n = row' n) : s.Row N before row' fs :=
  ⟨h.fits, fun n hn => e n hn ▸ h.slots n hn, h.others⟩

theorem Row.open? (h : s.Row N before row fs) (f : Bytes → Bytes) :
    ∃ fs', fs.open? s.path f = .ok (s.spot 0, fs') ∧
      s.Row N before (Function.update row 0 (some (f ((row 0).getD [])))) fs' := by
  have hl : fs.locate (slot s.path 0) = .ok (s.spot 0) := h.locate (Nat.zero_le N)
  have hs : (Path.ofText (slot s.path 0)).slashed = false := by rw [h.fits.paths]
  rw [slot_zero] at hl hs
  refine ⟨_, ?_, h.insert (Nat.zero_le N) _⟩
  cases hr : row 0 <;>
    simp [Files.open?, hl, hs, h.slots 0 (Nat.zero_le N), hr, bind, Except.bind]

def turned (row : Nat → Option Bytes) : Nat → Option Bytes
  | 0 => some []
  | n + 1 => row n

theorem Row.turn (h : s.Row N before row fs) (pos : 1 ≤ N) {content : Bytes}
    (live : row 0 = some content) (gapless : row (N - 1) = none → row N = none) :
    ∃ fs₁ fs₂, (Logger.shift s.path (N - 1) fs).rename s.path (generation s.path 1) = .ok fs₁ ∧
      fs₁.open? s.path (fun _ => []) = .ok (s.spot 0, fs₂) ∧
      s.Row N before (turned row) fs₂ := by
  obtain ⟨n, rfl⟩ : ∃ n, N = n + 1 := ⟨N - 1, by omega⟩
  have h₀ := h.shift (n := n) (by omega)
  have live₀ : shifted n row 0 = some content := by simp [live]
  obtain ⟨fs₁, h₁, row₁⟩ := h₀.rename (n := 1) (by omega) (by omega) (by omega) live₀
  obtain ⟨fs₂, h₂, row₂⟩ := row₁.open? fun _ => []
  refine ⟨fs₁, fs₂, h₁, h₂, row₂.congr fun k hk => ?_⟩
  match k with
  | 0 => simp [turned]
  | 1 => simp [turned, moved]
  | k + 2 =>
    simpa [turned, moved] using shifted_succ gapless (k := k + 1) (by omega) (by omega)

end Place

/-- A log can begin at a path: the live file can be opened and the generations can be given their
names, and none of them is there. -/
structure Room (path : String) (N : Nat) (fs : Files) : Prop where
  whole : '\x00' ∉ path.toList
  live : ∃ l fs', fs.open? path id = .ok (l, fs') ∧ fs.node? l = none
  older : ∀ n, 1 ≤ n → n ≤ N → ∃ l, fs.locate (generation path n) = .ok l ∧ fs.node? l = none

theorem Room.site {path : String} {N : Nat} {fs : Files} (room : Room path N fs) :
    ∃ s : Place, s.path = path ∧ s.Fits N fs := by
  obtain ⟨l, _, ho, vacant⟩ := room.live
  obtain ⟨hl, unslashed⟩ := Files.open?_ok ho
  have hf : fs.follow [] (Path.ofText path).steps = .ok l := by
    unfold Files.locate at hl
    split at hl
    · cases hl
    · exact hl
  obtain ⟨way, directory, name, named, leads, ends⟩ :=
    Files.follow_named hf (by simp [vacant])
  obtain ⟨stem, paths⟩ := ofText_slot room.whole named unslashed
  let s : Place := ⟨path, way, directory, stem⟩
  have here : s.In fs := ⟨paths, leads, ends⟩
  have free : ∀ n ≤ N, ∃ l, fs.locate (slot path n) = .ok l ∧ fs.node? l = none
    | 0, _ => ⟨l, hl, vacant⟩
    | n + 1, hn => room.older (n + 1) (by omega) hn
  have fits (n : Nat) (hn : n ≤ N) : s.isLong n = false ∧ fs.node? (s.spot n) = none := by
    obtain ⟨l, hl, hv⟩ := free n hn
    rw [show path = s.path from rfl, here.locate] at hl
    split at hl
    · cases hl
    · next short =>
      cases hl
      exact ⟨by simpa using short, hv⟩
  exact ⟨s, rfl, here, fun n hn => (fits n hn).1, fun n hn => (fits n hn).2⟩

end Logger

end Courier
