import Firefly.Config.MergeOrder
import Firefly.Config.Reload
import Firefly.Shared.Expansion

set_option autoImplicit false

namespace Firefly.Config

open Expansion

section Pieces

variable {text inner after : Text}

def spelling (inner : Text) : Text := "$\x7b".toList ++ inner ++ "\x7d".toList

theorem placeholderAt_spelling (found : placeholderAt text = some (inner, after)) :
    text = spelling inner ++ after := by
  unfold placeholderAt at found
  split at found
  next rest =>
    have whole := List.takeWhile_append_dropWhile (p := (· ≠ '\x7d')) (l := rest)
    have first := List.head?_dropWhile_not (· ≠ '\x7d') rest
    generalize rest.takeWhile (· ≠ '\x7d') = front at found whole
    generalize rest.dropWhile (· ≠ '\x7d') = back at found whole first
    cases back with
    | nil => cases front <;> cases found
    | cons brace tail =>
      obtain rfl : brace = '\x7d' := by simpa using first
      cases front with
      | nil => cases found
      | cons c front =>
        obtain ⟨rfl, rfl⟩ := Prod.mk.inj (Option.some.inj found)
        simp [spelling, ← whole]
  next => cases found

theorem containsMarker_of_placeholderAt (found : placeholderAt text = some (inner, after)) :
    containsMarker text = true := by
  rw [placeholderAt_spelling found]
  simp [spelling, containsMarker]

def Piece.part : Piece → Char ⊕ Text
  | .char c => .inl c
  | .placeholder inner => .inr inner

def partsOf (text : Text) : List (Char ⊕ Text) := (capturesIter text.length text).map Piece.part

theorem capturesIter_spelled (fuel : Nat) (text : Text) (enough : text.length ≤ fuel) :
    ((capturesIter fuel text).map Piece.part).flatMap (Sum.elim (fun c => [c]) spelling) = text := by
  induction fuel generalizing text with
  | zero =>
    obtain rfl := List.length_eq_zero_iff.mp (Nat.le_zero.mp enough)
    rfl
  | succ fuel ih =>
    cases text with
    | nil => rfl
    | cons c rest =>
      rw [capturesIter]
      split
      next inner after found =>
        have whole := placeholderAt_spelling found
        have shorter : after.length ≤ fuel := by
          have lengths := congrArg List.length whole
          simp [spelling] at lengths enough
          omega
        rw [List.map_cons, List.flatMap_cons, ih after shorter, whole]
        rfl
      next =>
        rw [List.map_cons, List.flatMap_cons, ih rest (by simpa using enough)]
        rfl

theorem capturesIter_unmarked (fuel : Nat) (text : Text) (hole : Text)
    (unmarked : containsMarker text = false) :
    .inr hole ∉ (capturesIter fuel text).map Piece.part := by
  induction fuel generalizing text with
  | zero => simp [capturesIter]
  | succ fuel ih =>
    cases text with
    | nil => simp [capturesIter]
    | cons c rest =>
      have later : containsMarker rest = false := by
        rw [containsMarker, Bool.or_eq_false_iff] at unmarked
        exact unmarked.2
      rw [capturesIter]
      split
      next found => simp [containsMarker_of_placeholderAt found] at unmarked
      next => simpa [Piece.part] using ih rest later

theorem containsMarker_of_dollarless {text : Text} (dollarless : '$' ∉ text) :
    containsMarker text = false := by
  induction text with
  | nil => rfl
  | cons c rest ih =>
    rw [List.mem_cons, not_or] at dollarless
    simp [containsMarker, ih dollarless.2, Ne.symm dollarless.1]

end Pieces

def fromEnvironment (env : Environment) (inner : Text) : Option Text :=
  (env.var (splitOnce inner).1).or (env.var (envKey env (splitOnce inner).1))

def placeholders (env : Environment) : Template Char Text Text where
  pieces := partsOf
  spell := spelling
  spelled := fun text => capturesIter_spelled _ text le_rfl
  marked := containsMarker
  unmarked := fun text hole unmarked => capturesIter_unmarked _ text hole unmarked
  given := fromEnvironment env
  key := fun inner => normalizeKey env (splitOnce inner).1
  fallback := fun inner => (splitOnce inner).2

@[simp] theorem placeholders_pieces (env : Environment) (text : Text) :
    (placeholders env).pieces text = partsOf text := rfl

def Holds (flat : Flat) (key value : Text) : Prop := fetch flat key = some value

theorem holds_functional (flat : Flat) : Template.Functional (Holds flat) :=
  fun _ _ _ one other => Option.some.inj (one.symm.trans other)

section Resolution

variable {env : Environment} {flat : Flat} {again : Text → Except ConfigError Text} {depth : Nat}

theorem resolveOne_eq (env : Environment) (flat : Flat) (again : Text → Except ConfigError Text)
    (inner : Text) :
    resolveOne env flat again inner =
      match fromEnvironment env inner with
      | some value => .ok value
      | none =>
        match fetch flat ((placeholders env).key inner) with
        | some referenced => if containsMarker referenced then again referenced else .ok referenced
        | none =>
          match (splitOnce inner).2 with
          | some default => .ok default
          | none => .error (.placeholder (spelling inner) "not found in environment or config") := by
  rcases split : splitOnce inner with ⟨refKey, default⟩
  simp only [resolveOne, fromEnvironment, placeholders, split]
  cases env.var refKey with
  | some value => rfl
  | none => cases env.var (envKey env refKey) <;> rfl

def Follows (env : Environment) (flat : Flat) (depth : Nat)
    (again : Text → Except ConfigError Text) : Prop :=
  ∀ referenced word, containsMarker referenced = true →
    (again referenced = .ok word ↔
      (placeholders env).WrittenOut (Holds flat) (partsOf referenced) word ∧
        ¬ (placeholders env).Chain (Holds flat) depth referenced)

theorem resolveOne_iff (follows : Follows env flat depth again) (inner word : Text) :
    resolveOne env flat again inner = .ok word ↔
      (placeholders env).Fills (Holds flat) inner word ∧
        ∀ value, fromEnvironment env inner = none → Holds flat ((placeholders env).key inner) value →
          containsMarker value = true → ¬ (placeholders env).Chain (Holds flat) depth value := by
  rw [resolveOne_eq, Template.Fills, show (placeholders env).given inner = fromEnvironment env inner from rfl]
  cases given : fromEnvironment env inner with
  | some value => simp
  | none =>
    cases held : fetch flat ((placeholders env).key inner) with
    | none =>
      have nothing : ∀ value, ¬ Holds flat ((placeholders env).key inner) value := by
        simp [Holds, held]
      rw [show (placeholders env).fallback inner = (splitOnce inner).2 from rfl]
      cases (splitOnce inner).2 <;> simp [nothing]
    | some referenced =>
      have same : ∀ value, Holds flat ((placeholders env).key inner) value ↔ referenced = value := by
        simp [Holds, held]
      have refuted : ¬ ∀ value : Text, ¬ referenced = value := fun none_there => none_there _ rfl
      cases marked : containsMarker referenced with
      | true => simpa [same, refuted, marked] using follows referenced word marked
      | false =>
        have plain : (placeholders env).WrittenOut (Holds flat) (partsOf referenced) word ↔
            word = referenced :=
          Template.writtenOut_unmarked (holds_functional flat) marked
        rw [eq_comm] at plain
        simpa [same, refuted, marked] using plain.symm

def resolvePiece (env : Environment) (flat : Flat) (again : Text → Except ConfigError Text) :
    Piece → Except ConfigError Text
  | .char c => .ok [c]
  | .placeholder inner => resolveOne env flat again inner

theorem mapM_cons_ok {α β : Type} {f : α → Except ConfigError β} {x : α} {xs : List α}
    {ys : List β} :
    (x :: xs).mapM f = .ok ys ↔ ∃ y rest, ys = y :: rest ∧ f x = .ok y ∧ xs.mapM f = .ok rest := by
  rw [List.mapM_cons]
  cases f x with
  | error e => simp [Bind.bind, Except.bind]
  | ok y =>
    cases xs.mapM f with
    | error e => simp [Bind.bind, Except.bind]
    | ok rest => simp [Bind.bind, Except.bind, pure, Except.pure, eq_comm]

theorem resolvePieces_iff (follows : Follows env flat depth again) (pieces : List Piece)
    (text : Text) :
    (∃ parts, pieces.mapM (resolvePiece env flat again) = .ok parts ∧ parts.flatten = text) ↔
      (placeholders env).WrittenOut (Holds flat) (pieces.map Piece.part) text ∧
        ∀ inner value, .placeholder inner ∈ pieces → fromEnvironment env inner = none →
          Holds flat ((placeholders env).key inner) value → containsMarker value = true →
            ¬ (placeholders env).Chain (Holds flat) depth value := by
  induction pieces generalizing text with
  | nil =>
    constructor
    · rintro ⟨parts, done, rfl⟩
      obtain rfl : [] = parts := Except.ok.inj done
      exact ⟨.nil, by simp⟩
    · rintro ⟨written, -⟩
      cases written
      exact ⟨[], rfl, rfl⟩
  | cons piece pieces ih =>
    cases piece with
    | char c =>
      rw [List.map_cons, Piece.part, Template.writtenOut_char_iff]
      constructor
      · rintro ⟨parts, done, rfl⟩
        obtain ⟨first, rest, rfl, here, later⟩ := mapM_cons_ok.mp done
        obtain rfl : [c] = first := Except.ok.inj here
        obtain ⟨written, short⟩ := (ih rest.flatten).mp ⟨rest, later, rfl⟩
        exact ⟨⟨rest.flatten, rfl, written⟩, by simpa using short⟩
      · rintro ⟨⟨tail, rfl, written⟩, short⟩
        obtain ⟨rest, later, rfl⟩ := (ih tail).mpr ⟨written, by simpa using short⟩
        exact ⟨[c] :: rest, mapM_cons_ok.mpr ⟨_, _, rfl, rfl, later⟩, rfl⟩
    | placeholder hole =>
      rw [List.map_cons, Piece.part, Template.writtenOut_hole_iff]
      constructor
      · rintro ⟨parts, done, rfl⟩
        obtain ⟨word, rest, rfl, here, later⟩ := mapM_cons_ok.mp done
        obtain ⟨fills, near⟩ := (resolveOne_iff follows hole word).mp here
        obtain ⟨written, short⟩ := (ih rest.flatten).mp ⟨rest, later, rfl⟩
        refine ⟨⟨word, rest.flatten, rfl, fills, written⟩, fun inner value among => ?_⟩
        rcases List.mem_cons.mp among with same | after
        · cases same
          exact near value
        · exact short inner value after
      · rintro ⟨⟨word, tail, rfl, fills, written⟩, short⟩
        have here := (resolveOne_iff follows hole word).mpr
          ⟨fills, fun value => short hole value List.mem_cons_self⟩
        obtain ⟨rest, later, rfl⟩ := (ih tail).mpr
          ⟨written, fun inner value among => short inner value (List.mem_cons_of_mem _ among)⟩
        exact ⟨word :: rest, mapM_cons_ok.mpr ⟨_, _, rfl, here, later⟩, rfl⟩

theorem resolveValue_succ (left : Nat) (value text : Text) :
    resolveValue env flat (left + 1) value = .ok text ↔
      ∃ parts, (capturesIter value.length value).mapM
        (resolvePiece env flat (resolveValue env flat left)) = .ok parts ∧ parts.flatten = text := by
  have pieces : (fun piece => match piece with
      | .char c => .ok [c]
      | .placeholder inner => resolveOne env flat (resolveValue env flat left) inner) =
        resolvePiece env flat (resolveValue env flat left) := by
    funext piece
    cases piece <;> rfl
  change (do
      let parts ← (capturesIter value.length value).mapM fun piece => match piece with
        | .char c => .ok [c]
        | .placeholder inner => resolveOne env flat (resolveValue env flat left) inner
      return parts.flatten) = Except.ok text ↔ _
  rw [pieces]
  cases (capturesIter value.length value).mapM
    (resolvePiece env flat (resolveValue env flat left)) <;>
    simp [Bind.bind, Except.bind, pure, Except.pure]

theorem mem_partsOf {value inner : Text} :
    .inr inner ∈ partsOf value ↔ .placeholder inner ∈ capturesIter value.length value := by
  rw [partsOf, List.mem_map]
  constructor
  · rintro ⟨piece, among, same⟩
    cases piece with
    | char c => cases same
    | placeholder other =>
      cases same
      exact among
  · exact fun among => ⟨_, among, rfl⟩

theorem resolveValue_iff (env : Environment) (flat : Flat) (left : Nat) (value text : Text) :
    resolveValue env flat left value = .ok text ↔
      (placeholders env).WrittenOut (Holds flat) (partsOf value) text ∧
        ¬ (placeholders env).Chain (Holds flat) left value := by
  induction left generalizing value text with
  | zero =>
    simp only [resolveValue, reduceCtorEq, false_iff, not_and, not_not]
    exact fun _ => .here value
  | succ left ih =>
    have follows : Follows env flat left (resolveValue env flat left) :=
      fun referenced word _ => ih referenced word
    rw [resolveValue_succ, resolvePieces_iff follows, Template.not_chain_succ_iff]
    refine and_congr_right fun _ => ?_
    constructor
    · rintro short value' ⟨inner, among, given, held, marked⟩
      exact short inner value' (mem_partsOf.mp among) given held marked
    · intro short inner value' among given held marked
      exact short value' ⟨inner, mem_partsOf.mpr among, given, held, marked⟩

end Resolution

section Moments

variable (env : Environment) (merged : Flat)

def Written (key text : Text) : Prop :=
  ∃ value, Holds merged key value ∧
    (placeholders env).WrittenOut (Holds merged) (partsOf value) text

def Legible : Prop :=
  ∀ key value, Holds merged key value →
    ¬ (placeholders env).Endless (Holds merged) (MAX_DEPTH + 1) value

def Inert (text : Text) : Prop :=
  (placeholders env).Replaced (Written env merged) (partsOf text) text ∧
    ¬ (placeholders env).Chain (Written env merged) (MAX_DEPTH + 1) text

end Moments

def Loads (moment : Moment) : Prop :=
  ∃ merged, merge moment.env moment.sources = .ok merged ∧ Legible moment.env merged

def Steady (moment : Moment) : Prop :=
  ∀ merged, merge moment.env moment.sources = .ok merged → Legible moment.env merged →
    ∀ key text, Written moment.env merged key text → Inert moment.env merged text

-- What is written out cannot be written out again.
def Broken (moment : Moment) : Prop :=
  ∃ merged, merge moment.env moment.sources = .ok merged ∧ Legible moment.env merged ∧
    ∃ key text, Written moment.env merged key text ∧
      (placeholders moment.env).Endless (Written moment.env merged) (MAX_DEPTH + 1) text

section Resolved

variable {env : Environment} {flat resolved : Flat} {key text : Text}

def Resolves (env : Environment) (flat : Flat) (entry out : Text × Text) : Prop :=
  out.1 = entry.1 ∧ (placeholders env).WrittenOut (Holds flat) (partsOf entry.2) out.2 ∧
    ¬ (placeholders env).Chain (Holds flat) (MAX_DEPTH + 1) entry.2

theorem resolveEntry_iff (entry out : Text × Text) :
    resolveEntry env flat entry = .ok out ↔ Resolves env flat entry out := by
  obtain ⟨key, value⟩ := entry
  obtain ⟨outKey, text⟩ := out
  have once := resolveValue_iff env flat (MAX_DEPTH + 1) value text
  rw [Resolves, ← once, resolveEntry]
  cases marked : containsMarker value with
  | true =>
    cases resolveValue env flat (MAX_DEPTH + 1) value <;> simp [eq_comm]
  | false =>
    have plain : resolveValue env flat (MAX_DEPTH + 1) value = .ok text ↔ text = value := by
      rw [once]
      constructor
      · exact fun done => (Template.writtenOut_unmarked (holds_functional flat) marked).mp done.1
      · rintro rfl
        exact ⟨(Template.writtenOut_unmarked (holds_functional flat) marked).mpr rfl,
          Template.chain_unmarked marked⟩
    simp [plain, eq_comm]

theorem mapM_ok_iff {α β : Type} {f : α → Except ConfigError β} {xs : List α} {ys : List β} :
    xs.mapM f = .ok ys ↔ List.Forall₂ (fun x y => f x = .ok y) xs ys := by
  induction xs generalizing ys with
  | nil =>
    rw [List.forall₂_nil_left_iff]
    exact ⟨fun done => (Except.ok.inj done).symm, by rintro rfl; rfl⟩
  | cons x xs ih =>
    rw [mapM_cons_ok, List.forall₂_cons_left_iff]
    simp only [ih]
    constructor
    · rintro ⟨y, rest, rfl, here, later⟩
      exact ⟨y, rest, here, later, rfl⟩
    · rintro ⟨y, rest, here, later, rfl⟩
      exact ⟨y, rest, rfl, here, later⟩

theorem resolvePlaceholders_iff :
    resolvePlaceholders env flat = .ok resolved ↔
      List.Forall₂ (Resolves env flat) flat resolved := by
  rw [resolvePlaceholders, mapM_ok_iff]
  simp only [resolveEntry_iff]

theorem fetch_resolves {source entries outs : Flat}
    (done : List.Forall₂ (Resolves env source) entries outs) :
    Holds outs key text ↔ ∃ value, Holds entries key value ∧
      (placeholders env).WrittenOut (Holds source) (partsOf value) text := by
  induction done with
  | nil => simp [Holds, fetch]
  | @cons entry out entries outs here _ ih =>
    obtain ⟨same, written, -⟩ := here
    unfold Holds at ih ⊢
    rw [fetch_cons, same, fetch_cons]
    by_cases own : entry.1 = key
    · simp only [own, if_true, Option.some.injEq, exists_eq_left']
      exact ⟨by rintro rfl; exact written, written.unique (holds_functional source)⟩
    · simpa [own] using ih

theorem holds_resolved (done : resolvePlaceholders env flat = .ok resolved) :
    Holds resolved = Written env flat := by
  funext key text
  exact propext (fetch_resolves (resolvePlaceholders_iff.mp done))

theorem mem_iff_holds (distinct : (flat.map Prod.fst).Nodup) (entry : Text × Text) :
    entry ∈ flat ↔ Holds flat entry.1 entry.2 := by
  induction flat with
  | nil => simp [Holds, fetch]
  | cons other flat ih =>
    obtain ⟨fresh, distinct⟩ := List.nodup_cons.mp distinct
    unfold Holds at ih ⊢
    rw [List.mem_cons, ih distinct, fetch_cons]
    by_cases own : other.1 = entry.1
    · have elsewhere : fetch flat entry.1 ≠ some entry.2 := fun held =>
        fresh (own ▸ List.mem_map_of_mem ((ih distinct).mpr held))
      simp [own, elsewhere, Prod.ext_iff, eq_comm]
    · have different : entry ≠ other := fun same => own (same ▸ rfl)
      simp [own, different]

theorem forall_mem_iff_holds (distinct : (flat.map Prod.fst).Nodup) {p : Text → Prop} :
    (∀ entry ∈ flat, p entry.2) ↔ ∀ key text, Holds flat key text → p text := by
  simp only [mem_iff_holds distinct]
  exact ⟨fun all key text => all (key, text), fun all entry => all entry.1 entry.2⟩

theorem exists_forall₂_iff {α β : Type} {related : α → β → Prop} {xs : List α} :
    (∃ ys, List.Forall₂ related xs ys) ↔ ∀ x ∈ xs, ∃ y, related x y := by
  induction xs with
  | nil => simp
  | cons x xs ih =>
    rw [List.forall_mem_cons, ← ih]
    constructor
    · rintro ⟨all, related⟩
      obtain ⟨y, ys, here, later, rfl⟩ := List.forall₂_cons_left_iff.mp related
      exact ⟨⟨y, here⟩, ys, later⟩
    · rintro ⟨⟨y, here⟩, ys, later⟩
      exact ⟨y :: ys, .cons here later⟩

theorem legible_iff (distinct : (flat.map Prod.fst).Nodup) :
    Legible env flat ↔ ∃ resolved, resolvePlaceholders env flat = .ok resolved := by
  simp only [resolvePlaceholders_iff, exists_forall₂_iff]
  rw [Legible, ← forall_mem_iff_holds distinct]
  refine forall₂_congr fun entry _ => ?_
  rw [Template.not_endless_iff (holds_functional flat)]
  constructor
  · rintro ⟨⟨text, written⟩, short⟩
    exact ⟨(entry.1, text), rfl, written, short⟩
  · rintro ⟨out, -, written, short⟩
    exact ⟨⟨out.2, written⟩, short⟩

theorem resolved_again_iff (distinct : (flat.map Prod.fst).Nodup) :
    resolvePlaceholders env flat = .ok flat ↔
      ∀ key text, Holds flat key text →
        (placeholders env).Replaced (Holds flat) (partsOf text) text ∧
          ¬ (placeholders env).Chain (Holds flat) (MAX_DEPTH + 1) text := by
  refine Iff.trans ?_ (Template.kept_iff (holds_functional flat) _)
  rw [resolvePlaceholders_iff, List.forall₂_same, ← forall_mem_iff_holds distinct]
  simp [Resolves]

theorem merge_distinct {sources : List Source} {before : Flat}
    (distinct : (before.map Prod.fst).Nodup)
    (merged : sources.foldlM (mergeSource env) before = .ok flat) :
    (flat.map Prod.fst).Nodup :=
  merge_keeps (P := fun flat => (flat.map Prod.fst).Nodup)
    (fun entries _ distinct => normalizeKeys_distinct env distinct entries) distinct merged

end Resolved

section Moments

variable {moment : Moment}

theorem mergedResolved_iff (moment : Moment) (flat : Flat) :
    mergedResolved moment = .ok flat ↔
      ∃ merged, merge moment.env moment.sources = .ok merged ∧
        resolvePlaceholders moment.env merged = .ok flat := by
  unfold mergedResolved
  cases merge moment.env moment.sources <;> simp

theorem writtenOut_of_resolved {flat : Flat} (resolved : mergedResolved moment = .ok flat) :
    (flat.map Prod.fst).Nodup ∧ ∃ merged, merge moment.env moment.sources = .ok merged ∧
      Legible moment.env merged ∧ Holds flat = Written moment.env merged := by
  obtain ⟨merged, done, written⟩ := (mergedResolved_iff moment flat).mp resolved
  have distinct : (merged.map Prod.fst).Nodup := merge_distinct (by simp) done
  refine ⟨resolved_keys written ▸ distinct, merged, done, ?_, holds_resolved written⟩
  exact (legible_iff distinct).mpr ⟨flat, written⟩

theorem resolved_of_legible {merged : Flat} (done : merge moment.env moment.sources = .ok merged)
    (legible : Legible moment.env merged) :
    ∃ flat, mergedResolved moment = .ok flat ∧ (flat.map Prod.fst).Nodup ∧
      Holds flat = Written moment.env merged := by
  have distinct : (merged.map Prod.fst).Nodup := merge_distinct (by simp) done
  obtain ⟨flat, written⟩ := (legible_iff distinct).mp legible
  exact ⟨flat, (mergedResolved_iff moment flat).mpr ⟨merged, done, written⟩,
    resolved_keys written ▸ distinct, holds_resolved written⟩

theorem loads_iff (moment : Moment) :
    (mergedResolved moment).toOption.isSome = true ↔ Loads moment := by
  constructor
  · intro some
    cases resolved : mergedResolved moment with
    | error e => simp [resolved, Except.toOption] at some
    | ok flat =>
      obtain ⟨-, merged, done, legible, -⟩ := writtenOut_of_resolved resolved
      exact ⟨merged, done, legible⟩
  · rintro ⟨merged, done, legible⟩
    obtain ⟨flat, resolved, -⟩ := resolved_of_legible done legible
    simp [resolved, Except.toOption]

theorem stable_iff_steady (moment : Moment) : Stable moment ↔ Steady moment := by
  constructor
  · intro stable merged done legible
    obtain ⟨flat, resolved, distinct, same⟩ := resolved_of_legible done legible
    have again := (resolved_again_iff distinct).mp (stable flat resolved)
    rw [same] at again
    exact again
  · intro steady flat resolved
    obtain ⟨distinct, merged, done, legible, same⟩ := writtenOut_of_resolved resolved
    rw [resolved_again_iff distinct, same]
    exact steady merged done legible

theorem stableOrFails_iff (moment : Moment) : StableOrFails moment ↔ Steady moment ∨ Broken moment := by
  rw [← stable_iff_steady]
  constructor
  · intro fails
    by_cases broken : Broken moment
    · exact .inr broken
    · refine .inl fun flat resolved => ?_
      obtain ⟨distinct, merged, done, legible, same⟩ := writtenOut_of_resolved resolved
      -- no text that is written out is endless, so the second resolution succeeds
      have ends : Legible moment.env flat := by
        rw [Legible, same]
        exact fun key text written endless =>
          broken ⟨merged, done, legible, key, text, written, endless⟩
      obtain ⟨again, twice⟩ := (legible_iff distinct).mp ends
      rw [fails flat again resolved twice] at twice
      exact twice
  · rintro (stable | broken) flat again resolved twice
    · rw [stable flat resolved] at twice
      exact (Except.ok.inj twice).symm
    · obtain ⟨merged, done, legible, key, text, written, endless⟩ := broken
      obtain ⟨distinct, merged', done', -, same⟩ := writtenOut_of_resolved resolved
      obtain rfl := Except.ok.inj (done.symm.trans done')
      have ends := (legible_iff distinct).mpr ⟨again, twice⟩
      rw [Legible, same] at ends
      exact absurd endless (ends key text written)

-- Placeholders that stand for themselves do no harm, and texts without any.
theorem steady_of_self
    (self : ∀ merged, merge moment.env moment.sources = .ok merged →
      ∀ key text, Written moment.env merged key text → ∀ inner, .inr inner ∈ partsOf text →
        fromEnvironment moment.env inner = some (spelling inner)) : Steady moment :=
  fun merged done _ key text written =>
    Template.inert_of_self (self merged done key text written) MAX_DEPTH

theorem steady_of_dollarless
    (plain : ∀ merged, merge moment.env moment.sources = .ok merged →
      ∀ key value, Holds merged key value →
        ¬ (placeholders moment.env).Contributes (partsOf value) '$') : Steady moment := by
  refine steady_of_self fun merged done key text ⟨value, holds, written⟩ inner among => ?_
  have dollarless : '$' ∉ text := by
    intro there
    rcases written.contributed there with here | ⟨other, referenced, held, within⟩
    · exact plain merged done key value holds here
    · exact plain merged done other referenced held within
  exact absurd among (capturesIter_unmarked _ text inner (containsMarker_of_dollarless dollarless))

end Moments

theorem live_configuration_iff (first : Moment) (later : List Replay) :
    (∀ (T : Type) (deserialize : Flat → Except ConfigError T), Live deserialize first later) ↔
      Steady first ∧ (Loads first →
        ∀ replay ∈ later, Steady replay.moment ∨ Broken replay.moment) := by
  rw [live_iff_stable, stable_iff_steady, loads_iff]
  simp only [stableOrFails_iff]

section Twice

theorem lowered_ascii (text : Text) : ∀ c ∈ text.map Char.toLower, c.isUpper = false := by
  intro c among
  obtain ⟨d, -, rfl⟩ := List.mem_map.mp among
  exact Char.isUpper_toLower_eq_false d

def bareEnvironment : Environment where
  var := fun _ => none
  toLowercase := fun text => text.map Char.toLower
  toUppercase := fun text => text.map Char.toUpper
  lowered := lowered_ascii

def nestedDefault : Moment where
  env := bareEnvironment
  sources :=
    [{ name := "base".toList,
       entries := .ok [("a".toList, "$\x7bp:$\x7bq\x7d\x7d".toList),
         ("q".toList, "1".toList)] }]

theorem nested_default_resolved_again :
    ¬ ∀ (T : Type) (deserialize : Flat → Except ConfigError T),
      Live deserialize nestedDefault [] := by
  intro live
  have starts := (live (Option Text) fun flat => .ok (fetch flat "a".toList)).starts
  have once : (load (fun flat => .ok (fetch flat "a".toList)) bareEnvironment
      nestedDefault.sources).toOption = some (some "$\x7bq\x7d".toList) := by rfl
  have twice : (ReloadableConfig.load (fun flat => .ok (fetch flat "a".toList))
      nestedDefault).toOption.map (·.snapshot) = some (some "1".toList) := by rfl
  rw [twice] at starts
  exact absurd (starts.trans once) (by decide)

def chained : Moment where
  env := bareEnvironment
  sources :=
    [{ name := "base".toList,
       entries := .ok [("a".toList, "${B:0}-${p:2}".toList),
         ("b".toList, "1".toList)] }]

example : Steady chained := by
  rw [← stable_iff_steady]
  intro flat resolved
  have once : mergedResolved chained =
      .ok [("a".toList, "1-2".toList), ("b".toList, "1".toList)] := by rfl
  obtain rfl := Except.ok.inj (once.symm.trans resolved)
  rfl

end Twice

end Firefly.Config
