import Firefly.Session.Concurrency
import Firefly.Shared.Runs

set_option autoImplicit false

namespace Firefly.Session

open Runs

section Registry

variable {registry : MemorySessionRegistry} {principal sessionId : String} {createdAt : Int}

def ids (sessions : List Entry) : List String := sessions.map Prod.fst

def others (sessions : List Entry) (sessionId : String) : List Entry :=
  sessions.filter (·.1 ≠ sessionId)

theorem older_trans : ∀ one two three : Entry, older one two → older two three → older one three := by
  rintro one two three (before | ⟨same, low⟩) (after | ⟨same', low'⟩)
  · exact Or.inl (before.trans after)
  · exact Or.inl (same' ▸ before)
  · exact Or.inl (same ▸ after)
  · exact Or.inr ⟨same.trans same', low.trans low'⟩

theorem older_total : ∀ one other : Entry, older one other ∨ older other one := by
  intro one other
  rcases lt_trichotomy one.2 other.2 with before | same | after
  · exact Or.inl (Or.inl before)
  · rcases le_total one.1 other.1 with low | high
    · exact Or.inl (Or.inr ⟨same, low⟩)
    · exact Or.inr (Or.inr ⟨same.symm, high⟩)
  · exact Or.inr (Or.inl after)

instance : IsTrans Entry older := ⟨older_trans⟩

instance : Std.Total older := ⟨older_total⟩

theorem listSessions_perm : (registry.listSessions principal).Perm (registry principal) :=
  List.perm_insertionSort _ _

theorem listSessions_oldest : (registry.listSessions principal).Pairwise older :=
  List.pairwise_insertionSort _ _

theorem others_length (sessions : List Entry) (sessionId : String) :
    (others sessions sessionId).length ≤ sessions.length :=
  List.length_filter_le _ _

theorem fresh_of_others {sessions : List Entry} {cap : Nat} (within : sessions.length ≤ cap)
    (full : cap ≤ (others sessions sessionId).length) :
    ∀ entry ∈ sessions, entry.1 ≠ sessionId := by
  have kept : (others sessions sessionId).length = sessions.length :=
    le_antisymm (others_length _ _) (within.trans full)
  have all := List.length_filter_eq_length_iff.mp kept
  simpa using all

end Registry

def Evicting (cap : Nat) (sessions : List Entry) (victims : List String) : Prop :=
  ∃ doomed kept : List Entry, ids doomed = victims ∧ kept.length < cap ∧
    (doomed ++ kept).Pairwise older ∧ (ids (doomed ++ kept)).Nodup ∧
    ∀ entry ∈ sessions, entry ∈ doomed ++ kept

def Fits (cap : Nat) (sessions : List Entry) (login : Login) : Prop :=
  match login.phase with
  | .registering => (others sessions login.sessionId).length < cap
  | .deleting victim rest | .deregistering victim rest => Evicting cap sessions (victim :: rest)

section Fitting

variable {cap : Nat} {sessions fewer : List Entry}

theorem Evicting.anti {victims : List String} (evicting : Evicting cap sessions victims)
    (less : fewer.Sublist sessions) : Evicting cap fewer victims := by
  obtain ⟨doomed, kept, named, room, sorted, distinct, inside⟩ := evicting
  exact ⟨doomed, kept, named, room, sorted, distinct, fun entry among =>
    inside entry (less.subset among)⟩

theorem Fits.anti {login : Login} (fits : Fits cap sessions login) (less : fewer.Sublist sessions) :
    Fits cap fewer login := by
  unfold Fits at fits ⊢
  cases phase : login.phase with
  | registering =>
    rw [phase] at fits
    exact ((less.filter _).length_le).trans_lt fits
  | deleting victim rest =>
    rw [phase] at fits
    exact Evicting.anti fits less
  | deregistering victim rest =>
    rw [phase] at fits
    exact Evicting.anti fits less

theorem Evicting.drop {victim : String} {rest : List String}
    (evicting : Evicting cap sessions (victim :: rest)) :
    Evicting cap (others sessions victim) rest := by
  obtain ⟨doomed, kept, named, room, sorted, distinct, inside⟩ := evicting
  cases doomed with
  | nil => cases named
  | cons first doomed =>
    obtain ⟨rfl, later⟩ := List.cons.inj named
    refine ⟨doomed, kept, later, room, (List.pairwise_cons.mp sorted).2,
      (List.nodup_cons.mp distinct).2, ?_⟩
    intro entry among
    obtain ⟨held, differs⟩ := List.mem_filter.mp among
    rcases List.mem_cons.mp (inside entry held) with rfl | left
    · simp at differs
    · exact left

-- The session next to be evicted is the oldest of those registered.
theorem Evicting.oldest {victim : String} {rest : List String}
    (evicting : Evicting cap sessions (victim :: rest)) {createdAt : Int}
    (held : (victim, createdAt) ∈ sessions) {other : Entry} (among : other ∈ sessions) :
    older (victim, createdAt) other := by
  obtain ⟨doomed, kept, named, room, sorted, distinct, inside⟩ := evicting
  cases doomed with
  | nil => cases named
  | cons first doomed =>
    obtain ⟨rfl, later⟩ := List.cons.inj named
    -- the ids are distinct, so the held entry is the first of the sorted list
    have leading : (first.1, createdAt) = first := by
      rcases List.mem_cons.mp (inside _ held) with same | left
      · exact same
      · have again : first.1 ∈ ids (doomed ++ kept) := List.mem_map.mpr ⟨_, left, rfl⟩
        exact absurd again (List.nodup_cons.mp distinct).1
    rw [leading]
    rcases List.mem_cons.mp (inside _ among) with rfl | left
    · exact (older_total other other).elim id id
    · exact (List.pairwise_cons.mp sorted).1 _ left

theorem Evicting.room (evicting : Evicting cap sessions []) (distinct : (ids sessions).Nodup) :
    sessions.length < cap := by
  obtain ⟨doomed, kept, named, room, sorted, -, inside⟩ := evicting
  obtain rfl : doomed = [] := List.map_eq_nil_iff.mp named
  have among : sessions.Subperm kept := List.subperm_of_subset distinct.of_map inside
  exact among.length_le.trans_lt room

theorem fits_evicting (login : Login) {victims : List String} (store : Option (List String))
    (evicts : Evicting cap sessions victims) (distinct : (ids sessions).Nodup) :
    Fits cap sessions { login with phase := evicting store victims } := by
  cases victims with
  | nil => exact (others_length _ _).trans_lt (evicts.room distinct)
  | cons victim rest =>
    unfold evicting Fits
    cases store <;> exact evicts

end Fitting

namespace Controller

structure Orderly (cap : Nat) (s : Controller) : Prop where
  distinct : ∀ principal, (ids (s.registry principal)).Nodup
  capped : ∀ principal, (s.registry principal).length ≤ cap
  alone : ∀ caller other login login', s.logins caller = some login →
    s.logins other = some login' → login.principal = login'.principal → caller = other
  fits : ∀ caller login, s.logins caller = some login →
    Fits cap (s.registry login.principal) login
  honest : ∀ sessionId accepted sessions, Event.ended sessionId accepted sessions ∈ s.log →
    (accepted = true ↔ ∃ createdAt, (sessionId, createdAt) ∈ sessions)
  oldest : ∀ victim sessions, Event.evicted victim sessions ∈ s.log →
    ∀ createdAt, (victim, createdAt) ∈ sessions → ∀ other ∈ sessions, older (victim, createdAt) other

variable {cap : Nat} {s : Controller}

theorem orderly_start (store : Option (List String)) : Orderly cap (start store) where
  distinct := fun _ => List.nodup_nil
  capped := fun _ => Nat.zero_le _
  alone := by simp [start]
  fits := by simp [start]
  honest := by simp [start]
  oldest := by simp [start]

theorem Orderly.capped_of_idle {policy : ConcurrencyPolicy}
    (orderly : Orderly policy.maxSessions.toNat s) : Capped policy s where
  cap := fun _ => orderly.capped
  honest := orderly.honest
  oldest := orderly.oldest

theorem deregister_sublist (registry : MemorySessionRegistry) (principal sessionId other : String) :
    (registry.deregister principal sessionId other).Sublist (registry other) := by
  by_cases same : other = principal
  · subst same
    rw [MemorySessionRegistry.deregister, Function.update_self]
    exact List.filter_sublist
  · rw [MemorySessionRegistry.deregister, Function.update_of_ne same]

theorem Orderly.shrink {registry : MemorySessionRegistry} (orderly : Orderly cap s)
    (less : ∀ principal, (registry principal).Sublist (s.registry principal)) :
    Orderly cap { s with registry } where
  distinct := fun principal => (orderly.distinct principal).sublist ((less principal).map _)
  capped := fun principal => (less principal).length_le.trans (orderly.capped principal)
  alone := orderly.alone
  fits := fun caller login active => (orderly.fits caller login active).anti (less _)
  honest := orderly.honest
  oldest := orderly.oldest

theorem Orderly.note {event : Event} (orderly : Orderly cap s)
    (honest : ∀ sessionId accepted sessions, event = .ended sessionId accepted sessions →
      (accepted = true ↔ ∃ createdAt, (sessionId, createdAt) ∈ sessions))
    (oldest : ∀ victim sessions, event = .evicted victim sessions →
      ∀ createdAt, (victim, createdAt) ∈ sessions → ∀ other ∈ sessions,
        older (victim, createdAt) other) :
    Orderly cap { s with log := s.log ++ [event] } where
  distinct := orderly.distinct
  capped := orderly.capped
  alone := orderly.alone
  fits := orderly.fits
  honest := by
    intro sessionId accepted sessions noted
    rcases List.mem_append.mp noted with before | last
    · exact orderly.honest _ _ _ before
    · exact honest _ _ _ (List.mem_singleton.mp last).symm
  oldest := by
    intro victim sessions noted
    rcases List.mem_append.mp noted with before | last
    · exact orderly.oldest _ _ before
    · exact oldest _ _ (List.mem_singleton.mp last).symm

theorem Orderly.enter (orderly : Orderly cap s) {caller : Nat} {login : Login}
    (lone : ∀ other login', s.logins other = some login' → login'.principal = login.principal →
      other = caller)
    (fits : Fits cap (s.registry login.principal) login) : Orderly cap (s.enter caller login) where
  distinct := orderly.distinct
  capped := orderly.capped
  alone := by
    intro first second login₁ login₂ one two same
    simp only [Controller.enter, Function.update_apply] at one two
    split at one <;> split at two
    next here there => exact here.trans there.symm
    next here there =>
      cases one
      exact here.trans (lone second login₂ two same.symm).symm
    next here there =>
      cases two
      exact (lone first login₁ one same).trans there.symm
    next => exact orderly.alone _ _ _ _ one two same
  fits := by
    intro other login' active
    simp only [Controller.enter, Function.update_apply] at active
    split at active
    next =>
      cases active
      exact fits
    next => exact orderly.fits other login' active
  honest := orderly.honest
  oldest := orderly.oldest

theorem Orderly.registered (orderly : Orderly cap s) {caller : Nat} {login : Login}
    (active : s.logins caller = some login) (registering : login.phase = .registering) :
    Orderly cap { s with
      registry := s.registry.register login.principal login.sessionId login.createdAt
      logins := Function.update s.logins caller none } where
  distinct := by
    intro principal
    show (ids (s.registry.register _ _ _ principal)).Nodup
    by_cases same : principal = login.principal
    · subst same
      rw [MemorySessionRegistry.register_same, ids, List.map_append, List.nodup_append]
      refine ⟨(orderly.distinct _).sublist (List.filter_sublist.map _), by simp, ?_⟩
      rintro id among _ last rfl
      simp only [List.map_cons, List.map_nil, List.mem_singleton] at last
      simp [last] at among
    · rw [MemorySessionRegistry.register_other _ _ _ same]
      exact orderly.distinct principal
  capped := by
    intro principal
    show (s.registry.register _ _ _ principal).length ≤ cap
    by_cases same : principal = login.principal
    · subst same
      have room := orderly.fits caller login active
      rw [Fits, registering] at room
      rw [MemorySessionRegistry.register_same, List.length_append]
      exact room
    · rw [MemorySessionRegistry.register_other _ _ _ same]
      exact orderly.capped principal
  alone := by
    intro first second login₁ login₂ one two same
    simp only [Function.update_apply] at one two
    split at one <;> split at two <;> try contradiction
    exact orderly.alone _ _ _ _ one two same
  fits := by
    intro other login' active'
    simp only [Function.update_apply] at active'
    split at active'
    next => cases active'
    next differs =>
      -- the other login is one of another principal
      have apart : login'.principal ≠ login.principal := by
        intro same
        exact differs (orderly.alone _ _ _ _ active' active same)
      show Fits cap (s.registry.register _ _ _ login'.principal) login'
      rw [MemorySessionRegistry.register_other _ _ _ apart]
      exact orderly.fits other login' active'
  honest := orderly.honest
  oldest := orderly.oldest

variable {policy : ConcurrencyPolicy}

theorem existing_length (registry : MemorySessionRegistry) (principal sessionId : String) :
    (others (registry.listSessions principal) sessionId).length =
      (others (registry principal) sessionId).length :=
  (listSessions_perm.filter _).length_eq

theorem evicting_listed (orderly : Orderly cap s) {principal sessionId : String} (positive : 0 < cap)
    (full : cap ≤ (others (s.registry.listSessions principal) sessionId).length) :
    let existing := others (s.registry.listSessions principal) sessionId
    Evicting cap (s.registry principal)
      (ids (existing.take (existing.length + 1 - cap))) := by
  intro existing
  have listed : (ids (s.registry.listSessions principal)).Nodup :=
    (listSessions_perm.map _).nodup_iff.mpr (orderly.distinct principal)
  have fresh := fresh_of_others (orderly.capped principal)
    ((existing_length s.registry principal sessionId) ▸ full)
  refine ⟨existing.take (existing.length + 1 - cap), existing.drop (existing.length + 1 - cap), rfl,
    ?_, ?_, ?_, ?_⟩
  · rw [List.length_drop]
    omega
  · rw [List.take_append_drop]
    exact listSessions_oldest.sublist List.filter_sublist
  · rw [List.take_append_drop]
    exact listed.sublist (List.filter_sublist.map _)
  · intro entry held
    rw [List.take_append_drop]
    exact List.mem_filter.mpr ⟨listSessions_perm.mem_iff.mpr held, by simpa using fresh entry held⟩

theorem orderly_onLogin (limited : 0 ≤ policy.maxSessions)
    (orderly : Orderly policy.maxSessions.toNat s) {caller : Nat} {principal : String}
    (sessionId : String) (createdAt : Int)
    (serial : Serial policy s (.login caller principal sessionId createdAt)) :
    Orderly policy.maxSessions.toNat (s.onLogin policy caller principal sessionId createdAt) := by
  have lone : ∀ other login', s.logins other = some login' → login'.principal = principal →
      other = caller := fun other login' active same => absurd same (serial.1 other login' active)
  rw [onLogin, if_neg (not_lt.mpr limited)]
  simp only
  split
  next room =>
    refine orderly.enter lone ?_
    rw [Fits, ← existing_length]
    exact room
  next full =>
    have crowded := not_lt.mp full
    split
    next =>
      -- a refused id is not registered: the cap is used up by others
      refine orderly.note ?_ (by rintro _ _ ⟨⟩)
      rintro _ _ _ ⟨⟩
      have fresh := fresh_of_others (orderly.capped principal)
        ((existing_length s.registry principal sessionId) ▸ crowded)
      simpa using fun createdAt held => fresh _ held rfl
    next evicts =>
      have strategy : policy.strategy = .evictOldest := by
        cases chosen : policy.strategy with
        | evictOldest => rfl
        | rejectNew => exact absurd chosen evicts
      have positive : 0 < policy.maxSessions.toNat := by
        have nonzero := serial.2 strategy
        omega
      refine orderly.enter lone ?_
      exact fits_evicting { principal, sessionId, createdAt, phase := .registering } s.store
        (evicting_listed orderly positive crowded) (orderly.distinct principal)

theorem orderly_advance (orderly : Orderly cap s) {caller : Nat} {login : Login}
    (active : s.logins caller = some login) (failing : Bool) :
    Orderly cap (s.advance caller failing login) := by
  have lone : ∀ other login', s.logins other = some login' → login'.principal = login.principal →
      other = caller := fun other login' active' same => orderly.alone _ _ _ _ active' active same
  have fits := orderly.fits caller login active
  cases phase : login.phase with
  | registering =>
    rw [advance, phase]
    refine (orderly.registered active phase).note ?_ (by rintro _ _ ⟨⟩)
    rintro _ _ _ ⟨⟩
    simp [MemorySessionRegistry.register]
  | deleting victim rest =>
    rw [Fits, phase] at fits
    rw [advance, phase]
    have moved : Orderly cap (s.enter caller { login with phase := .deregistering victim rest }) :=
      orderly.enter lone fits
    exact { moved with }
  | deregistering victim rest =>
    rw [Fits, phase] at fits
    rw [advance, phase]
    have fewer := orderly.shrink (deregister_sublist s.registry login.principal victim)
    have dropped : Evicting cap (s.registry.deregister login.principal victim login.principal)
        rest := by
      simpa [MemorySessionRegistry.deregister, others] using Evicting.drop fits
    have moved : Orderly cap (Controller.enter
        { s with registry := s.registry.deregister login.principal victim } caller
        { login with phase := evicting s.store rest }) :=
      fewer.enter lone (fits_evicting login s.store dropped (fewer.distinct _))
    refine moved.note ?_ ?_
    · rintro _ _ _ ⟨⟩
    · rintro _ _ ⟨⟩ createdAt held other among
      exact Evicting.oldest fits held among

theorem orderly_step (limited : 0 ≤ policy.maxSessions) {s' : Controller} {choice : Choice}
    (serial : Serial policy s choice) (orderly : Orderly policy.maxSessions.toNat s)
    (stepped : step policy s choice = some s') : Orderly policy.maxSessions.toNat s' := by
  cases choice with
  | login caller principal sessionId createdAt =>
    obtain rfl := Option.some.inj stepped
    split
    · exact orderly
    · exact orderly_onLogin limited orderly sessionId createdAt serial
  | advance caller failing =>
    rw [step] at stepped
    cases active : s.logins caller with
    | none =>
      rw [active] at stepped
      obtain rfl := Option.some.inj stepped
      exact orderly
    | some login =>
      rw [active] at stepped
      obtain rfl := Option.some.inj stepped
      exact orderly_advance orderly active failing
  | logout principal sessionId =>
    obtain rfl := Option.some.inj stepped
    exact orderly.shrink (deregister_sublist s.registry principal sessionId)

theorem serial_logins_capped (policy : ConcurrencyPolicy) (limited : 0 ≤ policy.maxSessions)
    (store : Option (List String)) (choices : List Choice)
    (serial : Along (step policy) (Serial policy) (start store) choices) :
    Always (step policy) (Capped policy) (start store) choices := by
  have kept := serial.always (Orderly policy.maxSessions.toNat)
    (fun s choice s' serial orderly stepped => orderly_step limited serial orderly stepped)
    (orderly_start store)
  exact kept.mono fun s orderly => orderly.capped_of_idle

def oneEvict : ConcurrencyPolicy := { maxSessions := 1, strategy := .evictOldest }

-- Bob logs in while the second login of alice is evicting her first session.
def crossingLogins : List Choice :=
  [.login 1 "alice" "s1" 1, .advance 1 false, .login 1 "alice" "s2" 2, .login 2 "bob" "t1" 3,
    .advance 1 false, .advance 2 false, .advance 1 false, .advance 1 false]

theorem serial_logins_capped_crossing :
    Always (step oneEvict) (Capped oneEvict) (start (some ["s1"])) crossingLogins ∧
      ∃ s, run (step oneEvict) (start (some ["s1"])) crossingLogins = some s ∧
        s.registry.listSessions "alice" = [("s2", 2)] ∧
        .evicted "s1" [("s1", 1)] ∈ s.log := by
  refine ⟨serial_logins_capped oneEvict (by decide) _ _ ?_, _, rfl, by decide, by decide⟩
  refine ⟨⟨fun _ _ active => (nomatch active), by decide⟩, fun _ first => ?_⟩
  obtain rfl := Option.some.inj first
  refine ⟨trivial, fun _ second => ?_⟩
  obtain rfl := Option.some.inj second
  refine ⟨⟨fun caller _ active => ?_, by decide⟩, fun _ third => ?_⟩
  · rcases caller with _ | _ | caller <;> cases active
  obtain rfl := Option.some.inj third
  refine ⟨⟨fun caller _ active => ?_, by decide⟩, fun _ _ => ?_⟩
  · rcases caller with _ | _ | caller <;> cases active
    decide
  · exact along_of_forall (by simp [Serial]) _

def noneEvict : ConcurrencyPolicy := { maxSessions := 0, strategy := .evictOldest }

theorem cap_exceeded :
    (∃ s, run (step oneEvict) (start none)
        [.login 1 "alice" "s1" 1, .login 2 "alice" "s2" 2, .advance 1 false, .advance 2 false] =
          some s ∧ s.registry.count "alice" = 2 ∧ ¬ Capped oneEvict s) ∧
      ∃ s, run (step noneEvict) (start none) [.login 1 "alice" "s1" 1, .advance 1 false] = some s ∧
        s.registry.count "alice" = 1 ∧ ¬ Capped noneEvict s := by
  refine ⟨⟨_, rfl, by decide, fun capped => ?_⟩, ⟨_, rfl, by decide, fun capped => ?_⟩⟩
  · have few := capped.cap (fun caller => by rcases caller with _ | _ | _ | caller <;> rfl) "alice"
    revert few
    decide
  · have few := capped.cap (fun caller => by rcases caller with _ | _ | caller <;> rfl) "alice"
    revert few
    decide

end Controller

end Firefly.Session
