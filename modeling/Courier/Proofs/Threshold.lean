import Courier.Configuration.Validation
import Courier.Proofs.Outline

namespace Courier

namespace Logger

/-! ## Two logs that turn alike -/

structure Alike (p q : Logger × Files) : Prop where
  path : p.1.path = q.1.path
  maxFiles : p.1.maxFiles = q.1.maxFiles
  opened : p.1.handle.isSome = q.1.handle.isSome
  outline : p.2.outline = q.2.outline

namespace Alike

variable {p q r : Logger × Files}

theorem trans (h : Alike p q) (k : Alike q r) : Alike p r :=
  ⟨h.path.trans k.path, h.maxFiles.trans k.maxFiles, h.opened.trans k.opened,
    h.outline.trans k.outline⟩

theorem symm (h : Alike p q) : Alike q p :=
  ⟨h.path.symm, h.maxFiles.symm, h.opened.symm, h.outline.symm⟩

theorem raised (h : Alike p q) : (p.1.raised p.2).outline = (q.1.raised q.2).outline := by
  rw [Logger.raised, Logger.raised, Files.outline_renamed, Files.outline_renamed, outline_shift,
    outline_shift, h.path, h.maxFiles, h.outline]

theorem turn (h : Alike p q) : Alike (turn p) (turn q) := by
  have moved := h.raised
  rw [turn_eq, turn_eq, h.path]
  generalize p.1.raised p.2 = fs at moved ⊢
  generalize q.1.raised q.2 = fs' at moved ⊢
  have same : (fs.open? q.1.path fun _ => []).map (fun r => (r.1, r.2.outline)) =
      (fs'.open? q.1.path fun _ => []).map fun r => (r.1, r.2.outline) := by
    rw [← Files.open?_outline, ← Files.open?_outline, moved]
  cases hp : fs.open? q.1.path fun _ => [] with
  | ok r => cases hq : fs'.open? q.1.path fun _ => [] with
    | ok r' =>
      rw [hp, hq] at same
      exact ⟨h.path, h.maxFiles, rfl, congrArg Prod.snd (Except.ok.inj same)⟩
    | error _ =>
      rw [hp, hq] at same
      cases same
  | error _ => cases hq : fs'.open? q.1.path fun _ => [] with
    | ok _ =>
      rw [hp, hq] at same
      cases same
    | error _ => exact ⟨h.path, h.maxFiles, rfl, moved⟩

theorem turns (h : Alike p q) (k : Nat) : Alike (Logger.turn^[k] p) (Logger.turn^[k] q) := by
  induction k generalizing p q with
  | zero => exact h
  | succ k ih => exact ih h.turn

theorem appended (p : Logger × Files) (e : Entry) : Alike (Logger.appended p e) p := by
  refine ⟨?_, ?_, ?_, outline_appended p e⟩
  all_goals simp [fst_appended]

end Alike

/-- The log `q` is some rotations behind: with them it would be like `p`. It has the higher
threshold, and where it is not behind it has grown no more. -/
structure Behind (k : Nat) (p q : Logger × Files) : Prop where
  level : p.1.level = q.1.level
  maxBytes : p.1.maxBytes ≤ q.1.maxBytes
  alike : Alike p (Logger.turn^[k] q)
  size : k = 0 → q.1.size ≤ p.1.size

namespace Behind

variable {k : Nat} {p q : Logger × Files}

theorem turn_left (h : Behind k p q) : Behind (k + 1) (turn p) q where
  level := by rw [turn_level, h.level]
  maxBytes := by rw [turn_maxBytes]; exact h.maxBytes
  alike := by
    rw [Function.iterate_succ_apply']
    exact h.alike.turn
  size hk := absurd hk (Nat.succ_ne_zero k)

theorem turn_right (h : Behind (k + 1) p q) : Behind k p (turn q) where
  level := by rw [turn_level, h.level]
  maxBytes := by rw [turn_maxBytes]; exact h.maxBytes
  alike := h.alike
  size _ := by
    rw [turn_size]
    exact Nat.zero_le _

theorem due (h : Behind 0 p q) (due : q.1.due = true) : p.1.due = true := by
  have opened : p.1.handle.isSome = q.1.handle.isSome := h.alike.opened
  have size := h.size rfl
  have maxBytes := h.maxBytes
  simp only [Logger.due, Bool.and_eq_true, decide_eq_true_eq] at due ⊢
  exact ⟨opened.trans due.1, by omega⟩

theorem readied (h : Behind k p q) :
    ∃ j, Behind j (Logger.readied p) (Logger.readied q) ∧
      j + q.1.due.toNat = k + p.1.due.toNat := by
  unfold Logger.readied
  cases hp : p.1.due <;> cases hq : q.1.due
  · exact ⟨k, h, rfl⟩
  · cases k with
    | zero => simp [h.due hq] at hp
    | succ k => exact ⟨k, h.turn_right, rfl⟩
  · exact ⟨k + 1, h.turn_left, rfl⟩
  · exact ⟨k, h.turn_left.turn_right, rfl⟩

theorem appended (h : Behind k p q) (e : Entry) :
    Behind k (Logger.appended p e) (Logger.appended q e) where
  level := by simp [fst_appended, h.level]
  maxBytes := by simpa [fst_appended] using h.maxBytes
  alike := (Alike.appended p e).trans (h.alike.trans ((Alike.appended q e).symm.turns k))
  size hk := by
    subst hk
    have opened : p.1.handle.isSome = q.1.handle.isSome := h.alike.opened
    have size := h.size rfl
    simp only [fst_appended, opened]
    split <;> omega

theorem logged (h : Behind k p q) (e : Entry) :
    ∃ j, Behind j (Logger.logged p e) (Logger.logged q e) ∧
      j + (turns q e).toNat = k + (turns p e).toNat := by
  unfold turns
  rw [logged_eq, logged_eq, h.level]
  cases e.2.visible q.1.level with
  | false => exact ⟨k, h, rfl⟩
  | true =>
    obtain ⟨j, behind, count⟩ := h.readied
    exact ⟨j, behind.appended e, by simpa using count⟩

theorem rotations (h : Behind k p q) (es : List Entry) :
    q.1.rotations es q.2 ≤ p.1.rotations es p.2 + k := by
  induction es generalizing k p q with
  | nil => exact Nat.zero_le _
  | cons e es ih =>
    obtain ⟨j, behind, count⟩ := h.logged e
    have rest := ih behind
    have each (r : Logger × Files) : r.1.rotations (e :: es) r.2 =
        (turns r e).toNat + (Logger.logged r e).1.rotations es (Logger.logged r e).2 := by
      rw [Logger.rotations, turns, Logger.logged]
      cases e.2.visible r.1.level && r.1.due <;> rfl
    rw [each, each]
    omega

end Behind

end Logger

namespace Configuration

variable {c : Configuration}

def tooManyMb : Int := 17592186044416

theorem logMaxSizeMb_pos (accepted : c.validate.outcome = .ok ()) : 0 < c.logMaxSizeMb := by
  have sound : c.defects = [] := by
    by_contra broken
    rw [validate, if_neg broken] at accepted
    cases accepted
  have logging : c.loggingDefects = [] := by
    rw [defects, List.append_eq_nil_iff, List.append_eq_nil_iff] at sound
    exact sound.1.1
  by_contra none
  simp [loggingDefects, none] at logging

theorem rotationBytes_eq_iff (pos : 0 < c.logMaxSizeMb) :
    (c.rotationBytes : Int) = c.logMaxSizeMb * 1048576 ↔ c.logMaxSizeMb < tooManyMb := by
  unfold rotationBytes wordModulus tooManyMb
  omega

theorem applyLogging_withMb (c : Configuration) (mb : Int) (g : Logger) (fs : Files) :
    { c with logMaxSizeMb := mb }.applyLogging g fs =
      ({ (c.applyLogging g fs).1 with
          maxBytes := { c with logMaxSizeMb := mb }.rotationBytes }, (c.applyLogging g fs).2) := by
  unfold applyLogging
  dsimp only
  split
  · rfl
  · unfold Logger.setFile Logger.setRotation
    dsimp only
    cases fs.open? c.logFile id <;> rfl

theorem maxBytes_applyLogging (c : Configuration) (g : Logger) (fs : Files) :
    (c.applyLogging g fs).1.maxBytes = c.rotationBytes :=
  congrArg (fun p => p.1.maxBytes) (applyLogging_withMb c c.logMaxSizeMb g fs)

theorem behind_applyLogging {mb : Int} (h : { c with logMaxSizeMb := mb }.rotationBytes ≤
    c.rotationBytes) (g : Logger) (fs : Files) :
    Logger.Behind 0 ({ c with logMaxSizeMb := mb }.applyLogging g fs) (c.applyLogging g fs) := by
  have maxBytes := c.maxBytes_applyLogging g fs
  rw [applyLogging_withMb]
  exact ⟨rfl, by rw [maxBytes]; exact h, ⟨rfl, rfl, rfl, rfl⟩, fun _ => Nat.le_refl _⟩

/-- The threshold that a log is configured with is exact if, and only if, a word can hold it. Then
it is positive, and a log turns no earlier than with fewer megabytes. -/
theorem threshold_exact (accepted : c.validate.outcome = .ok ()) (g : Logger) (fs : Files) :
    (((c.applyLogging g fs).1.maxBytes : Int) = c.logMaxSizeMb * 1048576 ↔
      c.logMaxSizeMb < tooManyMb) ∧
    (c.logMaxSizeMb < tooManyMb → 0 < (c.applyLogging g fs).1.maxBytes ∧
      ∀ b : Configuration, b.validate.outcome = .ok () →
        b = { c with logMaxSizeMb := b.logMaxSizeMb } → b.logMaxSizeMb ≤ c.logMaxSizeMb →
        (b.applyLogging g fs).1.maxBytes ≤ (c.applyLogging g fs).1.maxBytes ∧
        ∀ es, (c.applyLogging g fs).1.rotations es (c.applyLogging g fs).2 ≤
          (b.applyLogging g fs).1.rotations es (b.applyLogging g fs).2) := by
  have pos := logMaxSizeMb_pos accepted
  have exactness := rotationBytes_eq_iff pos
  rw [maxBytes_applyLogging]
  refine ⟨exactness, fun held => ⟨?_, fun b accepted' same fewer => ?_⟩⟩
  · have := exactness.2 held
    omega
  · have bytes := exactness.2 held
    have bytes' := (rotationBytes_eq_iff (logMaxSizeMb_pos accepted')).2 (by omega)
    have smaller : b.rotationBytes ≤ c.rotationBytes := by omega
    rw [maxBytes_applyLogging]
    refine ⟨smaller, fun es => ?_⟩
    rw [same] at smaller ⊢
    exact (behind_applyLogging smaller g fs).rotations es

theorem threshold_exact_highest :
    let c : Configuration := { logFile := "log", logMaxSizeMb := 17592186044415 }
    let b : Configuration := { logFile := "log", logMaxSizeMb := 100 }
    let p := c.applyLogging (.fresh Severity.info) ∅
    let q := b.applyLogging (.fresh Severity.info) ∅
    c.validate.outcome = .ok () ∧ c.logMaxSizeMb < tooManyMb ∧
      (p.1.maxBytes : Int) = c.logMaxSizeMb * 1048576 ∧ q.1.maxBytes ≤ p.1.maxBytes ∧
      ∀ es, p.1.rotations es p.2 ≤ q.1.rotations es q.2 := by
  intro c b
  dsimp only
  have accepted : c.validate.outcome = .ok () := by decide +kernel
  obtain ⟨exactness, later⟩ := threshold_exact accepted (.fresh Severity.info) ∅
  obtain ⟨higher, turns⟩ := (later (by decide)).2 b (by decide +kernel) rfl (by decide)
  exact ⟨accepted, by decide, exactness.2 (by decide), higher, turns⟩

/-- One megabyte more comes to no threshold at all: the log turns with every record. -/
theorem threshold_wraps :
    let c : Configuration := { logFile := "log", logMaxSizeMb := 17592186044416 }
    let b : Configuration := { logFile := "log", logMaxSizeMb := 100 }
    let p := c.applyLogging (.fresh Severity.info) ∅
    let q := b.applyLogging (.fresh Severity.info) ∅
    let es : List Logger.Entry := [("1", ⟨Severity.info, "a"⟩), ("2", ⟨Severity.info, "b"⟩)]
    c.validate.outcome = .ok () ∧ b.validate.outcome = .ok () ∧ p.1.maxBytes = 0 ∧
      p.1.rotations es p.2 = 2 ∧ q.1.rotations es q.2 = 0 := by
  decide +kernel

end Configuration

end Courier
