import Courier.Configuration.Loading
import Courier.Proofs.Readings
import Mathlib.Data.List.Sort

/-!
Two computations that come to the same, while the second one may warn more often. Settings that
are read from two tables of parameters agree in this sense where the tables agree on the known keys.
-/

namespace Courier

/-- The same lists but for what is at that place, if anything is. -/
inductive Apart {α : Type} (Q : α → α → Prop) : Nat → List α → List α → Prop
  | beyond (i : Nat) : Apart Q i [] []
  | here {a a' : α} (as : List α) : Q a a' → Apart Q 0 (a :: as) (a' :: as)
  | there (a : α) {i : Nat} {as as' : List α} : Apart Q i as as' →
      Apart Q (i + 1) (a :: as) (a :: as')

namespace Apart

variable {α : Type} {Q : α → α → Prop} {i : Nat} {as as' : List α}

theorem refl (h : ∀ a, Q a a) (i : Nat) (as : List α) : Apart Q i as as := by
  induction as generalizing i with
  | nil => exact .beyond i
  | cons a as ih =>
    cases i with
    | zero => exact .here as (h a)
    | succ i => exact .there a (ih i)

theorem element {a a' : α} (h : Q a a') (before after : List α) :
    Apart Q before.length (before ++ a :: after) (before ++ a' :: after) := by
  induction before with
  | nil => exact .here after h
  | cons b before ih => exact .there b ih

theorem eq (h : Apart Eq i as as') : as' = as := by
  induction h with
  | beyond i => rfl
  | here as same => rw [same]
  | there a _ ih => rw [ih]

end Apart

namespace Logged

variable {ε ε' α α' β β' : Type} {Q : α → α' → Prop} {R : β → β' → Prop}

inductive Matches (Q : α → α' → Prop) : Except ε α → Except ε α' → Prop
  | ok {a a'} : Q a a' → Matches Q (.ok a) (.ok a')
  | error (e : ε) : Matches Q (.error e) (.error e)

namespace Matches

variable {x : Except ε α} {y : Except ε α'}

theorem refl {Q : α → α → Prop} (h : ∀ a, Q a a) (x : Except ε α) : Matches Q x x := by
  cases x with
  | error e => exact .error e
  | ok a => exact .ok (h a)

theorem eq {y : Except ε α} (h : Matches Eq x y) : y = x := by
  cases h with
  | ok same => rw [same]
  | error e => rfl

theorem mono {Q' : α → α' → Prop} (h : Matches Q x y) (imp : ∀ a a', Q a a' → Q' a a') :
    Matches Q' x y := by
  cases h with
  | ok h => exact .ok (imp _ _ h)
  | error e => exact .error e

theorem bind {f : α → Except ε β} {g : α' → Except ε β'} (h : Matches Q x y)
    (next : ∀ a a', Q a a' → Matches R (f a) (g a')) : Matches R (x >>= f) (y >>= g) := by
  cases h with
  | ok h => exact next _ _ h
  | error e => exact .error e

theorem after {f : α → Except ε β} {g : α → Except ε β'} (x : Except ε α)
    (next : ∀ a, Matches R (f a) (g a)) : Matches R (x >>= f) (x >>= g) :=
  (refl (Q := Eq) (fun _ => rfl) x).bind fun a _ same => same ▸ next a

end Matches

/-- The second list of records has those of the first one and, beyond them, warnings only. -/
structure Warned (rs rs' : List Record) : Prop where
  kept : rs.Sublist rs'
  others : (rs'.filter fun r => r.severity ≠ .warn) = rs.filter fun r => r.severity ≠ .warn

namespace Warned

variable {rs rs' ts ts' : List Record}

theorem refl (rs : List Record) : Warned rs rs := ⟨List.Sublist.refl rs, rfl⟩

theorem append (h : Warned rs rs') (h' : Warned ts ts') : Warned (rs ++ ts) (rs' ++ ts') where
  kept := h.kept.append h'.kept
  others := by rw [List.filter_append, List.filter_append, h.others, h'.others]

theorem of_warnings (kept : rs.Sublist rs') (warnings : ∀ r ∈ rs', r.severity = .warn) :
    Warned rs rs' where
  kept
  others := by
    have none {ts : List Record} (h : ∀ r ∈ ts, r.severity = .warn) :
        (ts.filter fun r => r.severity ≠ .warn) = [] :=
      List.filter_eq_nil_iff.2 fun r hr => by simp [h r hr]
    rw [none warnings, none fun r hr => warnings r (kept.subset hr)]

end Warned

/-- The second computation comes to the same as the first, up to the relation, and logs the same,
up to further warnings. -/
structure Agrees (Q : α → α' → Prop) (x : Logged ε α) (y : Logged ε α') : Prop where
  outcome : Matches Q x.outcome y.outcome
  records : Warned x.records y.records

namespace Agrees

variable {x : Logged ε α} {y : Logged ε α'}

theorem refl {Q : α → α → Prop} (h : ∀ a, Q a a) (x : Logged ε α) : Agrees Q x x :=
  ⟨.refl h _, .refl _⟩

theorem ofExcept {x : Except ε α} {y : Except ε α'} (h : Matches Q x y) :
    Agrees Q (.ofExcept x) (.ofExcept y) :=
  ⟨h, .refl _⟩

theorem pure {a : α} {a' : α'} (h : Q a a') :
    Agrees Q (Pure.pure a : Logged ε α) (Pure.pure a') :=
  ⟨.ok h, .refl _⟩

theorem bind {f : α → Logged ε β} {g : α' → Logged ε β'} (h : Agrees Q x y)
    (next : ∀ a a', Q a a' → Agrees R (f a) (g a')) : Agrees R (x >>= f) (y >>= g) := by
  obtain ⟨rs, outcome⟩ := x
  obtain ⟨rs', outcome'⟩ := y
  obtain ⟨matching, records⟩ := h
  cases matching with
  | ok related => exact ⟨(next _ _ related).outcome, records.append (next _ _ related).records⟩
  | error e => exact ⟨.error e, records⟩

theorem after {f : α → Logged ε β} {g : α → Logged ε β'} (x : Logged ε α)
    (next : ∀ a, Agrees R (f a) (g a)) : Agrees R (x >>= f) (x >>= g) :=
  (refl (Q := Eq) (fun _ => rfl) x).bind fun a _ same => same ▸ next a

theorem mapError (h : Agrees Q x y) (f : ε → ε') : Agrees Q (x.mapError f) (y.mapError f) := by
  obtain ⟨rs, outcome⟩ := x
  obtain ⟨rs', outcome'⟩ := y
  obtain ⟨matching, records⟩ := h
  cases matching with
  | ok related => exact ⟨.ok related, records⟩
  | error e => exact ⟨.error (f e), records⟩

theorem mono {Q' : α → α' → Prop} (h : Agrees Q x y) (imp : ∀ a a', Q a a' → Q' a a') :
    Agrees Q' x y :=
  ⟨h.outcome.mono imp, h.records⟩

theorem mapM {R : β → β → Prop} {f : α → Logged ε β} {i : Nat} {as as' : List α}
    (h : Apart (fun a a' => Agrees R (f a) (f a')) i as as') :
    Agrees (Apart R i) (as.mapM f) (as'.mapM f) := by
  induction h with
  | beyond i => exact .pure (.beyond i)
  | here as first =>
    rw [List.mapM_cons, List.mapM_cons]
    exact first.bind fun b b' related => .after _ fun bs => .pure (.here bs related)
  | there a _ ih =>
    rw [List.mapM_cons, List.mapM_cons]
    exact .after _ fun b => ih.bind fun bs bs' apart => .pure (.there b apart)

theorem map {f : α → α'} (h : ∀ a, Q a (f a)) (x : Logged ε α) : Agrees Q x (f <$> x) := by
  obtain ⟨rs, outcome⟩ := x
  cases outcome with
  | error e => exact ⟨.error e, .refl rs⟩
  | ok a =>
    have nothing : Warned rs (rs ++ []) := by
      rw [List.append_nil]
      exact .refl rs
    exact ⟨.ok (h a), nothing⟩

end Agrees

end Logged

namespace Settings

def withTokens (tokens : List String) (s : Settings) : Settings := { s with nonRetryTokens := tokens }

def LikeButTokens (s s' : Settings) : Prop := s' = s.withTokens s'.nonRetryTokens

theorem likeButTokens_withTokens (tokens : List String) (s : Settings) :
    s.LikeButTokens (s.withTokens tokens) := rfl

theorem modify_of_apart {i : Nat} {ss ss' : List Settings} (h : Apart LikeButTokens i ss ss') :
    ∃ tokens, ss' = ss.modify i (withTokens tokens) := by
  induction h with
  | beyond i => exact ⟨[], (List.modify_nil _ i).symm⟩
  | @here s s' ss related => exact ⟨s'.nonRetryTokens, congrArg (· :: ss) related⟩
  | there s _ ih =>
    obtain ⟨tokens, same⟩ := ih
    exact ⟨tokens, by rw [List.modify_succ_cons, same]⟩

end Settings

namespace Parameters

open Logged

structure Enlarged (keys : List String) (p q : Parameters) : Prop where
  same : ∀ key ∈ keys, q[key]? = p[key]?
  more : ∀ key ∈ p, key ∈ q

namespace Enlarged

variable {keys : List String} {p q : Parameters}

theorem refl (keys : List String) (p : Parameters) : Enlarged keys p p :=
  ⟨fun _ _ => rfl, fun _ => id⟩

theorem insert_both (h : Enlarged keys p q) (key text : String) :
    Enlarged keys (p.insert key text) (q.insert key text) where
  same k hk := by rw [Std.ExtTreeMap.getElem?_insert, Std.ExtTreeMap.getElem?_insert, h.same k hk]
  more k hk := by
    rw [Std.ExtTreeMap.mem_insert] at hk ⊢
    exact hk.imp id (h.more k)

theorem insert (h : Enlarged keys p q) {key : String} (other : key ∉ keys) (text : String) :
    Enlarged keys p (q.insert key text) where
  same k hk := by
    have ne : key ≠ k := fun same => other (same ▸ hk)
    rw [Std.ExtTreeMap.getElem?_insert, if_neg (by simpa using ne), h.same k hk]
  more k hk := Std.ExtTreeMap.mem_insert.2 (.inr (h.more k hk))

theorem keys_sublist (h : Enlarged keys p q) : p.keys.Sublist q.keys := by
  have asymmetric {a b : String} (lt : compare a b = .lt) : compare b a ≠ .lt := fun gt => by
    rw [Std.OrientedCmp.gt_of_lt lt] at gt
    cases gt
  have : Std.Antisymm fun a b : String => compare a b = .lt :=
    ⟨fun _ _ lt gt => absurd gt (asymmetric lt)⟩
  have distinct : p.keys.Nodup := by
    refine List.Pairwise.imp ?_ p.ordered_keys
    rintro key _ lt rfl
    exact asymmetric lt lt
  have among : p.keys ⊆ q.keys := fun key hk =>
    Std.ExtTreeMap.mem_keys.2 (h.more key (Std.ExtTreeMap.mem_keys.1 hk))
  exact List.sublist_of_subperm_of_pairwise (List.subperm_of_subset distinct among)
    p.ordered_keys q.ordered_keys

end Enlarged

def quietly (name : String) (p : Parameters) : Logged Error Settings := do
  let s ← .ofExcept (independent name p)
  let s ← p.throttleInterval s
  p.drop s

theorem settings_eq (name : String) (p : Parameters) :
    p.settings name = warnUnknown name p >>= fun _ => p.quietly name := rfl

def knownButTokens : List String := known.erase "nonRetryStatusCodes"

section Reading

variable {name : String} {p q : Parameters}

theorem independent_tokens (same : ∀ key ∈ knownButTokens, q[key]? = p[key]?) :
    independent name q = Settings.withTokens q.tokens <$> independent name p := by
  simp (disch := decide) only [independent, either, trimmed, booleanOr, same, map_bind, map_pure]
  rfl

theorem throttleInterval_tokens (same : ∀ key ∈ knownButTokens, q[key]? = p[key]?)
    (ts : List String) (s : Settings) :
    q.throttleInterval (s.withTokens ts) = Settings.withTokens ts <$> p.throttleInterval s := by
  have cron : (s.withTokens ts).cronExpression = s.cronExpression := rfl
  rw [throttleInterval, throttleInterval, same _ (by decide), cron]
  cases p["throttleInterval"]? with
  | none => rfl
  | some raw =>
    dsimp only
    split
    · rfl
    · cases number .int64 "throttleInterval" raw <;> rfl

theorem drop_tokens (same : ∀ key ∈ knownButTokens, q[key]? = p[key]?)
    (ts : List String) (s : Settings) :
    q.drop (s.withTokens ts) = Settings.withTokens ts <$> p.drop s := by
  have attempts : (s.withTokens ts).maxAttempts = s.maxAttempts := rfl
  rw [drop, drop, trimmed, trimmed, same _ (by decide), attempts]
  split
  · split <;> rfl
  · rfl

theorem quietly_tokens (same : ∀ key ∈ knownButTokens, q[key]? = p[key]?) :
    q.quietly name = Settings.withTokens q.tokens <$> p.quietly name := by
  have separately : independent name q = Settings.withTokens q.tokens <$> independent name p :=
    independent_tokens same
  rw [quietly, quietly, separately]
  cases independent name p with
  | error e => rfl
  | ok s =>
    change (q.throttleInterval (s.withTokens q.tokens) >>= q.drop) =
      Settings.withTokens q.tokens <$> (p.throttleInterval s >>= p.drop)
    rw [throttleInterval_tokens same, map_bind, bind_map_left]
    simp only [drop_tokens same]

theorem quietly_congr (same : ∀ key ∈ known, q[key]? = p[key]?) :
    q.quietly name = p.quietly name := by
  have tokens : q.tokens = p.tokens := by
    rw [Parameters.tokens, Parameters.tokens, same _ (by decide)]
  rw [quietly_tokens fun key hk => same key (List.mem_of_mem_erase hk), tokens,
    ← quietly_tokens fun _ _ => rfl]

theorem warned_unknown {keys : List String} (h : Enlarged keys p q) (name : String) :
    Warned (warnUnknown name p).records (warnUnknown name q).records :=
  .of_warnings ((h.keys_sublist.filter _).map _) (warnUnknown_gives name q).records

theorem settings_agree (h : Enlarged known p q) (name : String) :
    Agrees Eq (p.settings name) (q.settings name) := by
  rw [settings_eq, settings_eq, quietly_congr h.same]
  exact Agrees.bind ⟨.ok (Q := fun _ _ => True) trivial, warned_unknown h name⟩ fun _ _ _ =>
    .refl (fun _ => rfl) _

theorem settings_agree_tokens (h : Enlarged knownButTokens p q) (name : String) :
    Agrees Settings.LikeButTokens (p.settings name) (q.settings name) := by
  rw [settings_eq, settings_eq, quietly_tokens h.same]
  refine Agrees.bind ⟨.ok (Q := fun _ _ => True) trivial, warned_unknown h name⟩ fun _ _ _ => ?_
  exact .map (Settings.likeButTokens_withTokens q.tokens) _

end Reading

end Parameters

end Courier
