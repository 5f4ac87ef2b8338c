import Courier.Proofs.Rotation

/-!
The outline of a tree: its directories, and its files without what is written in them. Where a path
leads, and what becomes of the tree when something is renamed or opened, is a matter of the outline.
-/

namespace Courier

def Node.blank : Node → Node
  | .directory => .directory
  | .file _ => .file []

namespace Files

variable {fs fs' : Files}

def outline (fs : Files) : Files := fs.map fun _ n => n.blank

@[simp] theorem node?_outline (fs : Files) (l : Location) :
    fs.outline.node? l = (fs.node? l).map Node.blank := by
  unfold node? outline
  split
  · rfl
  · simp

theorem outline_insert (fs : Files) (l : Location) (n : Node) :
    outline (fs.insert l n) = fs.outline.insert l n.blank := by
  refine Std.ExtTreeMap.ext_getElem? fun k => ?_
  simp only [outline, Std.ExtTreeMap.getElem?_map, Std.ExtTreeMap.getElem?_insert]
  split <;> rfl

theorem outline_erase (fs : Files) (l : Location) :
    outline (fs.erase l) = fs.outline.erase l := by
  refine Std.ExtTreeMap.ext_getElem? fun k => ?_
  simp only [outline, Std.ExtTreeMap.getElem?_map, Std.ExtTreeMap.getElem?_erase]
  split <;> rfl

theorem outline_write {l : Location} {content : Bytes} (h : fs.node? l = some (.file content))
    (content' : Bytes) : outline (fs.insert l (.file content')) = fs.outline := by
  have there : fs[l]? = some (.file content) := by
    unfold node? at h
    split at h
    · cases h
    · exact h
  rw [outline_insert]
  refine Std.ExtTreeMap.ext_getElem? fun k => ?_
  simp only [outline, Std.ExtTreeMap.getElem?_insert, Std.ExtTreeMap.getElem?_map]
  split
  case isTrue same =>
    obtain rfl := Std.LawfulEqCmp.eq_of_compare same
    rw [there]
    rfl
  case isFalse => rfl

@[simp] theorem take_outline (fs : Files) (l : Location) (s : Path.Step) :
    fs.outline.take l s = fs.take l s := by
  unfold take
  rw [node?_outline]
  cases fs.node? l with
  | none => rfl
  | some n => cases n <;> rfl

@[simp] theorem follow_outline (fs : Files) (l : Location) (ss : List Path.Step) :
    fs.outline.follow l ss = fs.follow l ss := by
  induction ss generalizing l with
  | nil => rfl
  | cons s ss ih => simp [follow, ih]

@[simp] theorem locate_outline (fs : Files) (path : String) :
    fs.outline.locate path = fs.locate path := by
  simp [locate]

@[simp] theorem isEmptyDirectory_outline (fs : Files) (l : Location) :
    fs.outline.isEmptyDirectory l = fs.isEmptyDirectory l := by
  simp [isEmptyDirectory, outline, Std.ExtTreeMap.keys_map]

theorem outline_move (fs : Files) (source target : Location) :
    (fs.move source target).outline = fs.outline.move source target := by
  have each (es : List (Location × Node)) (fs : Files) :
      outline (es.foldl (fun fs e =>
        (fs.erase e.1).insert (target ++ e.1.drop source.length) e.2) fs) =
      (es.map fun e => (e.1, e.2.blank)).foldl (fun fs e =>
        (fs.erase e.1).insert (target ++ e.1.drop source.length) e.2) fs.outline := by
    induction es generalizing fs with
    | nil => rfl
    | cons e es ih =>
      rw [List.foldl_cons, List.map_cons, List.foldl_cons, ih, outline_insert, outline_erase]
  rw [move, move, each, outline_erase]
  congr 1
  simp [outline, Std.ExtTreeMap.toList_map, List.filter_map, Function.comp_def]

theorem rename_outline (fs : Files) (source target : String) :
    fs.outline.rename source target = (fs.rename source target).map outline := by
  simp only [rename, locate_outline, node?_outline, bind, Except.bind]
  cases fs.locate source with
  | error e => rfl
  | ok a =>
    dsimp only
    split
    · rfl
    · cases fs.node? a with
      | none => rfl
      | some n =>
        cases fs.locate target with
        | error e => rfl
        | ok b =>
          dsimp only [Option.map]
          split
          · rfl
          · cases n with
            | directory =>
              rcases fs.node? b with _ | _ | _
              · simp [Node.blank, Except.map, outline_move]
              · simp only [Node.blank, isEmptyDirectory_outline]
                split
                · simp [Except.map, outline_move]
                · rfl
              · rfl
            | file content =>
              rcases fs.node? b with _ | _ | _
              · simp [Node.blank, Except.map, outline_insert, outline_erase]
              · rfl
              · simp [Node.blank, Except.map, outline_insert, outline_erase]

theorem open?_outline (fs : Files) (path : String) :
    fs.outline.open? path (fun _ => []) =
      (fs.open? path fun _ => []).map fun r => (r.1, r.2.outline) := by
  simp only [open?, locate_outline, node?_outline, bind, Except.bind]
  cases fs.locate path with
  | error e => rfl
  | ok l =>
    dsimp only
    have opened (e : Obstacle) :
        (if (Path.ofText path).slashed then .error e
          else .ok (l, fs.outline.insert l (.file [])) : Except Obstacle (Location × Files)) =
        (if (Path.ofText path).slashed then .error e
          else .ok (l, fs.insert l (.file [])) : Except Obstacle (Location × Files)).map
            fun r => (r.1, r.2.outline) := by
      split
      · rfl
      · exact congrArg (fun t => Except.ok (l, t)) (outline_insert fs l (.file [])).symm
    rcases fs.node? l with _ | _ | _
    · exact opened .isDirectory
    · rfl
    · exact opened .notDirectory

def renamed (fs : Files) (source target : String) : Files :=
  match fs.rename source target with
  | .ok fs => fs
  | .error _ => fs

theorem outline_renamed (fs : Files) (source target : String) :
    (fs.renamed source target).outline = fs.outline.renamed source target := by
  rw [renamed, renamed, rename_outline]
  cases fs.rename source target <;> rfl

end Files

namespace Logger

theorem shift_succ (path : String) (n : Nat) (fs : Files) :
    shift path (n + 1) fs =
      shift path n (fs.renamed (generation path (n + 1)) (generation path (n + 2))) := by
  cases renamed : fs.rename (generation path (n + 1)) (generation path (n + 2)) <;>
    simp only [shift, Files.renamed, renamed]

theorem outline_shift (path : String) (n : Nat) (fs : Files) :
    (shift path n fs).outline = shift path n fs.outline := by
  induction n generalizing fs with
  | zero => rfl
  | succ n ih => rw [shift_succ, shift_succ, ih, Files.outline_renamed]

def raised (g : Logger) (fs : Files) : Files :=
  (shift g.path (g.maxFiles - 1).toNat fs).renamed g.path (generation g.path 1)

def turn (p : Logger × Files) : Logger × Files := ((p.1.rotate p.2).1, (p.1.rotate p.2).2.1)

theorem turn_eq (p : Logger × Files) :
    turn p = match (p.1.raised p.2).open? p.1.path fun _ => [] with
      | .ok (l, fs) => ({ p.1 with handle := some ⟨l, false, some 0⟩, size := 0 }, fs)
      | .error _ => ({ p.1 with handle := none, size := 0 }, p.1.raised p.2) := by
  obtain ⟨g, fs⟩ := p
  rw [turn, rotate, raised, Files.renamed]
  cases (shift g.path (g.maxFiles - 1).toNat fs).rename g.path (generation g.path 1) with
  | ok fs =>
    dsimp only
    cases fs.open? g.path fun _ => [] <;> rfl
  | error e =>
    dsimp only
    cases (shift g.path (g.maxFiles - 1).toNat fs).open? g.path fun _ => [] <;> rfl

theorem turn_level (p : Logger × Files) : (turn p).1.level = p.1.level := by
  rw [turn_eq]
  split <;> rfl

theorem turn_maxBytes (p : Logger × Files) : (turn p).1.maxBytes = p.1.maxBytes := by
  rw [turn_eq]
  split <;> rfl

theorem turn_size (p : Logger × Files) : (turn p).1.size = 0 := by
  rw [turn_eq]
  split <;> rfl

def readied (p : Logger × Files) : Logger × Files := if p.1.due then turn p else p

def turns (p : Logger × Files) (e : Entry) : Bool := e.2.visible p.1.level && p.1.due

def logged (p : Logger × Files) (e : Entry) : Logger × Files :=
  ((p.1.log e.1 e.2 p.2).1, (p.1.log e.1 e.2 p.2).2.1)

def appended (p : Logger × Files) (e : Entry) : Logger × Files :=
  ((p.1.write e.1 e.2 p.2).1, (p.1.write e.1 e.2 p.2).2.1)

theorem logged_eq (p : Logger × Files) (e : Entry) :
    logged p e = if e.2.visible p.1.level then appended (readied p) e else p := by
  rw [logged, log, readied]
  split
  · cases p.1.due with
    | false => rfl
    | true => rw [if_pos rfl, if_pos rfl, appended, turn]
  · rfl

theorem fst_appended (p : Logger × Files) (e : Entry) :
    (appended p e).1 = { p.1 with
      handle := p.1.handle.map fun h => { h with position := h.position.map (· +
        (Bytes.ofText (stamped e.1 e.2)).length) }
      size := if p.1.handle.isSome then p.1.size + e.2.text.utf8ByteSize + 30
        else p.1.size } := by
  obtain ⟨⟨level, path, _ | handle, size, maxBytes, maxFiles⟩, fs⟩ := p
  · rfl
  · rw [appended, write]
    dsimp only
    split <;> rfl

theorem outline_appended (p : Logger × Files) (e : Entry) :
    (appended p e).2.outline = p.2.outline := by
  rw [appended, write]
  cases p.1.handle with
  | none => rfl
  | some handle =>
    dsimp only
    cases handle.gone with
    | true => rfl
    | false =>
      rcases content : p.2.node? handle.location with _ | _ | _
      · rfl
      · rfl
      · exact Files.outline_write content _

end Logger

end Courier
