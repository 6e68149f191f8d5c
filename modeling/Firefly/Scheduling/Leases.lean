import Firefly.Scheduling.Locks

set_option autoImplicit false

-- A lock protects a lease that runs out by itself. The schedulers of several processes ask for
-- leases, overrun them and give them back in any order; at most one lease of a name is current at
-- any time.

namespace Firefly.Scheduling.Locks

open Runs

variable {β : Type}

def Current (expires : Option Nat) (now : Nat) : Prop := ∀ expiry, expires = some expiry → now < expiry

def Contend (shared : Nat → Nat → Prop) (tasks : Nat → Task) (a b : Body) : Prop :=
  shared (tasks a.task).process (tasks b.task).process ∧
    ∃ lock lock', (tasks a.task).lock = some lock ∧ (tasks b.task).lock = some lock' ∧ lock.name = lock'.name

def Cluster.Exclusive (shared : Nat → Nat → Prop) (tasks : Nat → Task) (c : Cluster β) : Prop :=
  ∀ a ∈ c.bodies, ∀ b ∈ c.bodies, Contend shared tasks a b →
    Current a.expires c.now → Current b.expires c.now → a = b

def Cluster.Timely (tasks : Nat → Task) (c : Cluster β) : Event → Prop
  | .release task _ => ∀ a ∈ c.bodies, a.task = task → ¬ Current a.expires c.now →
    ∀ b ∈ c.bodies, Contend Eq tasks a b → ¬ Current b.expires c.now
  | _ => True

structure Protection (L : DistributedLock β) where
  shared : Nat → Nat → Prop
  Sound : β → Prop
  Protects : β → (now process : Nat) → Name → (expires : Option Nat) → Prop
  refl : ∀ p, shared p p
  symm : ∀ {p q}, shared p q → shared q p
  sound_acquire : ∀ {s p name ttl now fault}, Sound s → Sound (L.tryAcquire s p name ttl now fault).1
  sound_release : ∀ {s p name now fault}, Sound s → Sound (L.release s p name now fault).1
  sound_crash : ∀ {s p}, Sound s → Sound (L.crash s p)
  later : ∀ {s now time p name expires}, now ≤ time → Protects s now p name expires →
    Protects s time p name expires
  granted : ∀ {s p name ttl now fault}, Sound s → (L.tryAcquire s p name ttl now fault).2 = .ok true →
    Protects (L.tryAcquire s p name ttl now fault).1 now p name (L.expiry ttl now) ∧
      ∀ q expires, shared p q → Protects s now q name expires → ¬ Current expires now
  acquire_keeps : ∀ {s p name ttl now fault q other expires}, Sound s → Current expires now →
    Protects s now q other expires → Protects (L.tryAcquire s p name ttl now fault).1 now q other expires
  release_keeps : ∀ {s p name now fault q other expires}, Sound s → p ≠ q ∨ name ≠ other →
    Current expires now → Protects s now q other expires →
      Protects (L.release s p name now fault).1 now q other expires
  crash_keeps : ∀ {s p now q other expires}, Sound s → p ≠ q → Protects s now q other expires →
    Protects (L.crash s p) now q other expires

structure Cluster.Kept {L : DistributedLock β} (P : Protection L) (tasks : Nat → Task) (c : Cluster β) :
    Prop where
  sound : P.Sound c.backend
  once : (c.bodies.map Body.task).Nodup
  protects : ∀ b ∈ c.bodies, ∀ lock, (tasks b.task).lock = some lock → Current b.expires c.now →
    P.Protects c.backend c.now (tasks b.task).process lock.name b.expires
  exclusive : c.Exclusive P.shared tasks

section Kept

variable {L : DistributedLock β} {P : Protection L} {tasks : Nat → Task} {c c' : Cluster β}

theorem Current.earlier {expires : Option Nat} {now time : Nat} (current : Current expires time)
    (order : now ≤ time) : Current expires now :=
  fun expiry ends => Nat.lt_of_le_of_lt order (current expiry ends)

theorem eq_of_task (once : (c.bodies.map Body.task).Nodup) {a b : Body} (first : a ∈ c.bodies)
    (second : b ∈ c.bodies) (same : a.task = b.task) : a = b :=
  List.inj_on_of_nodup_map once first second same

theorem Cluster.Kept.fewer (kept : c.Kept P tasks) (backend : β) (keep : Body → Bool)
    (sound : P.Sound backend)
    (still : ∀ b ∈ c.bodies, keep b = true → ∀ lock, (tasks b.task).lock = some lock →
      Current b.expires c.now → P.Protects c.backend c.now (tasks b.task).process lock.name b.expires →
      P.Protects backend c.now (tasks b.task).process lock.name b.expires) :
    Cluster.Kept P tasks { c with backend, bodies := c.bodies.filter keep } where
  sound := sound
  once := (List.filter_sublist.map Body.task).nodup kept.once
  protects b among lock locked current := by
    obtain ⟨inside, kept'⟩ := List.mem_filter.mp among
    exact still b inside kept' lock locked current (kept.protects b inside lock locked current)
  exclusive a first b second := kept.exclusive a (List.mem_filter.mp first).1 b (List.mem_filter.mp second).1

theorem Cluster.Kept.advance (kept : c.Kept P tasks) {time : Nat} (order : c.now ≤ time) :
    Cluster.Kept P tasks { c with now := time } where
  sound := kept.sound
  once := kept.once
  protects b inside lock locked current :=
    P.later order (kept.protects b inside lock locked (current.earlier order))
  exclusive a first b second contend current current' :=
    kept.exclusive a first b second contend (current.earlier order) (current'.earlier order)

theorem Cluster.Kept.unlocked (kept : c.Kept P tasks) {task : Nat} (idle : task ∉ c.bodies.map Body.task)
    (lockless : (tasks task).lock = none) {expires : Option Nat} :
    Cluster.Kept P tasks { c with bodies := ⟨task, expires, false⟩ :: c.bodies } where
  sound := kept.sound
  once := by simpa using ⟨by simpa using idle, kept.once⟩
  protects b inside lock locked current := by
    rcases List.mem_cons.mp inside with rfl | inside
    · simp [lockless] at locked
    · exact kept.protects b inside lock locked current
  exclusive a first b second contend current current' := by
    obtain ⟨shared, lock, lock', locked, locked', same⟩ := contend
    rcases List.mem_cons.mp first with rfl | first
    · simp [lockless] at locked
    · rcases List.mem_cons.mp second with rfl | second
      · simp [lockless] at locked'
      · exact kept.exclusive a first b second ⟨shared, lock, lock', locked, locked', same⟩ current current'

theorem Cluster.Kept.acquired (kept : c.Kept P tasks) {task : Nat} {lock : TaskLock} {fault : Option Fault}
    (idle : task ∉ c.bodies.map Body.task) (locked : (tasks task).lock = some lock)
    (granted : (L.tryAcquire c.backend (tasks task).process lock.name lock.ttl c.now fault).2 = .ok true) :
    Cluster.Kept P tasks { c with
      backend := (L.tryAcquire c.backend (tasks task).process lock.name lock.ttl c.now fault).1
      bodies := ⟨task, L.expiry lock.ttl c.now, false⟩ :: c.bodies } := by
  obtain ⟨protects, free⟩ := P.granted kept.sound granted
  -- No other current lease of that name is there.
  have alone (b : Body) (inside : b ∈ c.bodies) (lock' : TaskLock) (locked' : (tasks b.task).lock = some lock')
      (shared : P.shared (tasks task).process (tasks b.task).process) (same : lock'.name = lock.name) :
      ¬ Current b.expires c.now := by
    intro current
    have held := kept.protects b inside lock' locked' current
    rw [same] at held
    exact free _ _ shared held current
  constructor
  · exact P.sound_acquire kept.sound
  · simpa using ⟨by simpa using idle, kept.once⟩
  · intro b inside lock' locked' current
    rcases List.mem_cons.mp inside with rfl | inside
    · obtain rfl : lock = lock' := Option.some.inj (locked.symm.trans locked')
      exact protects
    · exact P.acquire_keeps kept.sound current (kept.protects b inside lock' locked' current)
  · intro a first b second contend current current'
    obtain ⟨shared, one, other, locked₁, locked₂, same⟩ := contend
    rcases List.mem_cons.mp first with rfl | first <;> rcases List.mem_cons.mp second with rfl | second
    · rfl
    · obtain rfl : lock = one := Option.some.inj (locked.symm.trans locked₁)
      exact absurd current' (alone b second other locked₂ shared same.symm)
    · obtain rfl : lock = other := Option.some.inj (locked.symm.trans locked₂)
      exact absurd current (alone a first one locked₁ (P.symm shared) same)
    · exact kept.exclusive a first b second ⟨shared, one, other, locked₁, locked₂, same⟩ current current'

theorem Cluster.Kept.finish (kept : c.Kept P tasks) (task : Nat) :
    Cluster.Kept P tasks { c with
      bodies := c.bodies.map fun b => if b.task = task then { b with ended := true } else b } := by
  have origin (b : Body) (inside : b ∈ c.bodies.map fun b => if b.task = task then { b with ended := true } else b) :
      ∃ old ∈ c.bodies, old.task = b.task ∧ old.expires = b.expires ∧
        b = if old.task = task then { old with ended := true } else old := by
    obtain ⟨old, among, rfl⟩ := List.mem_map.mp inside
    refine ⟨old, among, ?_⟩
    by_cases same : old.task = task <;> simp [same]
  constructor
  · exact kept.sound
  · have tasks_same : ((c.bodies.map fun b => if b.task = task then { b with ended := true } else b).map
        Body.task) = c.bodies.map Body.task := by
      rw [List.map_map]
      refine List.map_congr_left fun b _ => ?_
      by_cases same : b.task = task <;> simp [same]
    rw [tasks_same]
    exact kept.once
  · intro b inside lock locked current
    obtain ⟨old, among, task_same, expires_same, -⟩ := origin b inside
    rw [← task_same] at locked ⊢
    rw [← expires_same] at current ⊢
    exact kept.protects old among lock locked current
  · intro a first b second contend current current'
    obtain ⟨old, inside, task_same, expires_same, shape⟩ := origin a first
    obtain ⟨old', inside', task_same', expires_same', shape'⟩ := origin b second
    have same : old = old' := kept.exclusive old inside old' inside'
      (by simpa only [Contend, task_same, task_same'] using contend)
      (by rwa [expires_same]) (by rwa [expires_same'])
    rw [shape, shape', same]

theorem Cluster.Kept.release (kept : c.Kept P tasks) {task : Nat} {fault : Option Fault} {lock : TaskLock}
    (locked : (tasks task).lock = some lock) {body : Body} (inside : body ∈ c.bodies)
    (owner : body.task = task) (timely : c.Timely tasks (.release task fault)) :
    Cluster.Kept P tasks { c with
      bodies := c.bodies.filter fun b => b.task ≠ task
      backend := (L.release c.backend (tasks task).process lock.name c.now fault).1 } := by
  refine kept.fewer _ _ (P.sound_release kept.sound) fun b among other lock' locked' current protects => ?_
  refine P.release_keeps kept.sound ?_ current protects
  by_contra same
  push Not at same
  obtain ⟨process, name⟩ := same
  have contend : Contend Eq tasks body b :=
    ⟨by rw [owner]; exact process, lock, lock', by rw [owner]; exact locked, locked', name⟩
  by_cases expired : Current body.expires c.now
  · -- Both are current, so they are one body, and its task is another.
    have shared : P.shared (tasks body.task).process (tasks b.task).process := by
      rw [contend.1]
      exact P.refl _
    obtain rfl := kept.exclusive body inside b among ⟨shared, contend.2⟩ expired current
    simp [owner] at other
  · exact timely body inside owner expired b among contend current

theorem Cluster.Kept.step (kept : c.Kept P tasks) {event : Event} (timely : c.Timely tasks event)
    (stepped : c.step L tasks event = some c') : c'.Kept P tasks := by
  cases event with
  | advance time =>
    simp only [Cluster.step, Option.ite_none_right_eq_some, Option.some.injEq] at stepped
    obtain ⟨order, rfl⟩ := stepped
    exact kept.advance order
  | tick task fault =>
    simp only [Cluster.step] at stepped
    split at stepped
    · cases stepped
    · next idle =>
      split at stepped
      next lockless =>
        cases stepped
        exact kept.unlocked idle lockless
      next lock locked =>
        split at stepped
        next backend granted =>
          cases stepped
          have acquired := kept.acquired idle locked (congrArg Prod.snd granted)
          rwa [granted] at acquired
        next backend result _ skipped =>
          cases stepped
          have same : backend =
              (L.tryAcquire c.backend (tasks task).process lock.name lock.ttl c.now fault).1 := by rw [skipped]
          have fewer := kept.fewer backend (fun _ => true) (same ▸ P.sound_acquire kept.sound)
            fun b inside _ lock' locked' current protects => same ▸ P.acquire_keeps kept.sound current protects
          simpa using fewer
  | finish task =>
    simp only [Cluster.step, Option.ite_none_right_eq_some, Option.some.injEq] at stepped
    obtain ⟨-, rfl⟩ := stepped
    exact kept.finish task
  | release task fault =>
    simp only [Cluster.step] at stepped
    split at stepped
    · next found =>
      obtain ⟨body, inside, owner, -⟩ := found
      split at stepped
      next lockless =>
        cases stepped
        exact kept.fewer c.backend _ kept.sound fun _ _ _ _ _ _ protects => protects
      next lock locked =>
        cases stepped
        exact kept.release locked inside owner timely
    · cases stepped
  | crash process =>
    cases stepped
    refine kept.fewer _ _ (P.sound_crash kept.sound) fun b _ other lock _ _ protects => ?_
    refine P.crash_keeps kept.sound ?_ protects
    exact Ne.symm (of_decide_eq_true other)

end Kept

def inProcessProtection : Protection inProcess where
  shared := Eq
  Sound _ := True
  Protects locks _ process name expires := ∃ expiry, expires = some expiry ∧ (locks process).held name = some expiry
  refl _ := rfl
  symm := Eq.symm
  sound_acquire _ := trivial
  sound_release _ := trivial
  sound_crash _ := trivial
  later _ protects := protects
  granted {locks p name ttl now fault} _ result := by
    simp only [inProcess, InProcessLock.tryAcquire] at result ⊢
    split at result
    · cases result
    · next free =>
      refine ⟨⟨_, rfl, by simp [free]⟩, ?_⟩
      rintro q expires rfl ⟨expiry, rfl, held⟩ current
      exact free (by simp [held, current expiry rfl])
  acquire_keeps {locks p name ttl now fault q other expires} _ current protects := by
    obtain ⟨expiry, rfl, held⟩ := protects
    refine ⟨expiry, rfl, ?_⟩
    simp only [inProcess, InProcessLock.tryAcquire]
    by_cases mine : q = p
    · subst mine
      rw [Function.update_self]
      split
      · exact held
      · next free =>
        have differs : other ≠ name := by
          rintro rfl
          exact free (by simp [held, current expiry rfl])
        simp [differs, held]
    · simp [mine, held]
  release_keeps {locks p name now fault q other expires} _ apart _ protects := by
    obtain ⟨expiry, rfl, held⟩ := protects
    refine ⟨expiry, rfl, ?_⟩
    simp only [inProcess, InProcessLock.release]
    by_cases mine : q = p
    · subst mine
      have differs : other ≠ name := by
        rintro rfl
        simp at apart
      simp [differs, held]
    · simp [mine, held]
  crash_keeps {locks p now q other expires} _ apart protects := by
    obtain ⟨expiry, rfl, held⟩ := protects
    refine ⟨expiry, rfl, ?_⟩
    simp [inProcess, apart.symm, held]

section Redis

variable {σ : Type} (redis : Redis σ) (lock : RedisLock)

theorem RedisLock.key_inj {name other : Name} : lock.key name = lock.key other ↔ name = other :=
  List.append_cancel_left_eq _ _ _ |>.to_iff

def redisProtection : Protection (redisLock redis lock) where
  shared _ _ := True
  Sound _ := True
  Protects s now process name expires := ∃ expiry, expires = some expiry ∧
    ∀ time, now ≤ time → time < expiry → redis.get s time (lock.key name) = some (lock.token process)
  refl _ := trivial
  symm _ := trivial
  sound_acquire _ := trivial
  sound_release _ := trivial
  sound_crash _ := trivial
  later order := by
    rintro ⟨expiry, rfl, held⟩
    exact ⟨expiry, rfl, fun time after => held time (order.trans after)⟩
  granted {s p name ttl now fault} _ result := by
    cases fault with
    | some fault => cases fault <;> simp [redisLock, RedisLock.tryAcquire] at result
    | none =>
      simp only [redisLock, RedisLock.tryAcquire, Except.ok.injEq] at result ⊢
      refine ⟨⟨_, rfl, fun time after before => ?_⟩, ?_⟩
      · rw [redis.get_setNxPx _ _ _ _ _ _ _ after, if_pos ⟨result, rfl⟩, if_pos before]
      · rintro q expires - ⟨expiry, rfl, held⟩ current
        have free := (redis.reply ..).mp result
        rw [held now le_rfl (current expiry rfl)] at free
        cases free
  acquire_keeps {s p name ttl now fault q other expires} _ current protects := by
    obtain ⟨expiry, rfl, held⟩ := protects
    refine ⟨expiry, rfl, fun time after before => ?_⟩
    have here := held now le_rfl (current expiry rfl)
    have set : redis.get (redis.setNxPx s now (lock.key name) (lock.token p) (px ttl)).1 time (lock.key other) =
        some (lock.token q) := by
      rw [redis.get_setNxPx _ _ _ _ _ _ _ after, if_neg, held time after before]
      rintro ⟨taken, same⟩
      rw [(lock.key_inj).mp same, (redis.reply ..).mp taken] at here
      cases here
    cases fault with
    | some fault => cases fault <;> simp only [redisLock, RedisLock.tryAcquire, set, held time after before]
    | none => exact set
  release_keeps {s p name now fault q other expires} _ apart current protects := by
    obtain ⟨expiry, rfl, held⟩ := protects
    refine ⟨expiry, rfl, fun time after before => ?_⟩
    have here := held now le_rfl (current expiry rfl)
    have deleted : redis.get (redis.compareAndDelete s now (lock.key name) (lock.token p)) time (lock.key other) =
        some (lock.token q) := by
      rw [redis.get_compareAndDelete _ _ _ _ _ _ after, if_neg, held time after before]
      rintro ⟨owned, same⟩
      obtain rfl := (lock.key_inj).mp same
      rw [owned, Option.some.injEq, lock.token.apply_eq_iff_eq] at here
      simp [here] at apart
    cases fault with
    | some fault => cases fault <;> simp only [redisLock, RedisLock.release, deleted, held time after before]
    | none => exact deleted
  crash_keeps _ _ protects := protects

end Redis

section Postgres

variable {σ : Type} (postgres : Postgres σ) (advisoryKey : Name → Int)

structure PostgresAdvisoryLock.Sound (lock : PostgresAdvisoryLock σ) : Prop where
  once : (lock.held.map Held.session).Nodup
  opened : ∀ h ∈ lock.held, h.session < lock.sessions
  known : ∀ key session, postgres.holder lock.server key = some session → session < lock.sessions

variable {postgres} {lock : PostgresAdvisoryLock σ}

theorem holder_close_some {s : σ} {session other : Nat} {k : Int}
    (holds : postgres.holder (postgres.close s session) k = some other) : postgres.holder s k = some other := by
  rw [postgres.holder_close] at holds
  split at holds
  · cases holds
  · exact holds

theorem holder_close_ne {s : σ} {session other : Nat} {k : Int} (holds : postgres.holder s k = some other)
    (apart : other ≠ session) : postgres.holder (postgres.close s session) k = some other := by
  rw [postgres.holder_close, holds, if_neg (by simpa using apart)]

theorem holder_closes (ended : List Held) (s : σ) (k : Int) (session : Nat) :
    (postgres.holder (ended.foldl (fun server h => postgres.close server h.session) s) k = some session →
      postgres.holder s k = some session) ∧
    (postgres.holder s k = some session → (∀ h ∈ ended, h.session ≠ session) →
      postgres.holder (ended.foldl (fun server h => postgres.close server h.session) s) k = some session) := by
  induction ended generalizing s with
  | nil => exact ⟨id, fun holds _ => holds⟩
  | cons first ended ih =>
    refine ⟨fun holds => holder_close_some ((ih _).1 holds), fun holds apart => ?_⟩
    exact (ih _).2 (holder_close_ne holds (apart first (by simp)).symm) fun h inside => apart h (by simp [inside])

theorem holder_try_some {s : σ} {session other : Nat} {k k' : Int}
    (holds : postgres.holder (postgres.tryAdvisoryLock s session k).1 k' = some other) :
    other = session ∨ postgres.holder s k' = some other := by
  rw [postgres.holder_tryAdvisoryLock] at holds
  split at holds
  · exact .inl (Option.some.inj holds).symm
  · exact .inr holds

theorem holder_try_keeps {s : σ} {session other : Nat} {k k' : Int} (holds : postgres.holder s k' = some other)
    (apart : other ≠ session) : postgres.holder (postgres.tryAdvisoryLock s session k).1 k' = some other := by
  rw [postgres.holder_tryAdvisoryLock, if_neg, holds]
  rintro ⟨taken, rfl⟩
  rcases (postgres.reply ..).mp taken with free | mine
  · rw [holds] at free
    cases free
  · rw [holds] at mine
    exact apart (Option.some.inj mine)

theorem PostgresAdvisoryLock.Sound.acquire (sound : lock.Sound postgres) {p : Nat} {name : Name}
    {fault : Option Fault} : (lock.tryAcquire postgres advisoryKey p name fault).1.Sound postgres := by
  have tried : ∀ key session,
      postgres.holder (postgres.tryAdvisoryLock lock.server lock.sessions (advisoryKey name)).1 key = some session →
        session < lock.sessions + 1 := by
    intro key session holds
    rcases holder_try_some holds with rfl | before
    · exact Nat.lt_succ_self _
    · exact (sound.known key session before).trans (Nat.lt_succ_self _)
  have failed : ({ lock with
      sessions := lock.sessions + 1
      server := postgres.close (postgres.tryAdvisoryLock lock.server lock.sessions (advisoryKey name)).1
        lock.sessions } : PostgresAdvisoryLock σ).Sound postgres :=
    ⟨sound.once, fun h inside => (sound.opened h inside).trans (Nat.lt_succ_self _),
      fun key session holds => tried key session (holder_close_some holds)⟩
  rcases fault with _ | _ | _
  · simp only [PostgresAdvisoryLock.tryAcquire, true_and]
    split
    · have rest := (List.filter_sublist (p := fun h : Held => !h.isFor p name) (l := lock.held))
      refine ⟨?_, ?_, tried⟩
      · refine List.nodup_cons.mpr ⟨fun inside => ?_, (rest.map Held.session).nodup sound.once⟩
        obtain ⟨h, among, same⟩ := List.mem_map.mp inside
        exact absurd (sound.opened h (rest.subset among)) (by rw [same]; exact Nat.lt_irrefl _)
      · intro h inside
        rcases List.mem_cons.mp inside with rfl | inside
        · exact Nat.lt_succ_self _
        · exact (sound.opened h (rest.subset inside)).trans (Nat.lt_succ_self _)
    · exact failed
  · exact sound
  · simpa [PostgresAdvisoryLock.tryAcquire] using failed

theorem PostgresAdvisoryLock.Sound.release (sound : lock.Sound postgres) {p : Nat} {name : Name}
    {fault : Option Fault} : (lock.release postgres p name fault).1.Sound postgres := by
  have rest := (List.filter_sublist (p := fun h : Held => !h.isFor p name) (l := lock.held))
  unfold PostgresAdvisoryLock.release
  split
  · exact sound
  · exact ⟨(rest.map Held.session).nodup sound.once, fun h inside => sound.opened h (rest.subset inside),
      fun key session holds => sound.known key session (holder_close_some holds)⟩

theorem PostgresAdvisoryLock.Sound.crash (sound : lock.Sound postgres) {p : Nat} :
    (lock.crash postgres p).Sound postgres := by
  have rest := (List.filter_sublist (p := fun h : Held => h.process ≠ p) (l := lock.held))
  exact ⟨(rest.map Held.session).nodup sound.once, fun h inside => sound.opened h (rest.subset inside),
    fun key session holds => sound.known key session ((holder_closes _ _ _ _).1 holds)⟩

theorem PostgresAdvisoryLock.Sound.session_ne (sound : lock.Sound postgres) {h other : Held}
    (first : h ∈ lock.held) (second : other ∈ lock.held) (apart : h ≠ other) : h.session ≠ other.session :=
  fun same => apart (List.inj_on_of_nodup_map sound.once first second same)

variable (postgres)

def PostgresAdvisoryLock.Protects (lock : PostgresAdvisoryLock σ) (process : Nat) (name : Name) : Prop :=
  ∃ h ∈ lock.held, h.process = process ∧ h.name = name ∧
    postgres.holder lock.server (advisoryKey name) = some h.session

variable {postgres}

theorem PostgresAdvisoryLock.Protects.acquire (sound : lock.Sound postgres) {p q : Nat} {name other : Name}
    {fault : Option Fault} (protects : lock.Protects postgres advisoryKey q other) :
    (lock.tryAcquire postgres advisoryKey p name fault).1.Protects postgres advisoryKey q other := by
  obtain ⟨h, inside, rfl, rfl, holds⟩ := protects
  have old : h.session ≠ lock.sessions := (sound.opened h inside).ne
  have tried := @holder_try_keeps σ postgres lock.server lock.sessions h.session (advisoryKey name)
    (advisoryKey h.name) holds old
  have failed := holder_close_ne tried old
  rcases fault with _ | _ | _
  · simp only [PostgresAdvisoryLock.tryAcquire, true_and]
    split
    next acquired =>
      refine ⟨h, List.mem_cons_of_mem _ (List.mem_filter.mpr ⟨inside, ?_⟩), rfl, rfl, tried⟩
      -- Otherwise the new session would have got a lock that is held.
      by_contra mine
      simp only [Held.isFor, Bool.not_eq_true', decide_eq_false_iff_not, not_not] at mine
      rw [mine.2] at holds
      rcases (postgres.reply ..).mp acquired with free | own
      · rw [holds] at free
        cases free
      · rw [holds] at own
        exact old (Option.some.inj own)
    next => exact ⟨h, inside, rfl, rfl, failed⟩
  · exact ⟨h, inside, rfl, rfl, holds⟩
  · exact ⟨h, inside, rfl, rfl, failed⟩

theorem PostgresAdvisoryLock.Protects.release (sound : lock.Sound postgres) {p q : Nat} {name other : Name}
    {fault : Option Fault} (apart : p ≠ q ∨ name ≠ other) (protects : lock.Protects postgres advisoryKey q other) :
    (lock.release postgres p name fault).1.Protects postgres advisoryKey q other := by
  obtain ⟨h, inside, rfl, rfl, holds⟩ := protects
  have differs : h.isFor p name = false := by
    rcases apart with process | named
    · simp [Held.isFor, process.symm]
    · simp [Held.isFor, named.symm]
  unfold PostgresAdvisoryLock.release
  split
  · exact ⟨h, inside, rfl, rfl, holds⟩
  · next found first =>
    have other : h ≠ found := by
      rintro rfl
      rw [List.find?_some first] at differs
      cases differs
    refine ⟨h, List.mem_filter.mpr ⟨inside, by simp [differs]⟩, rfl, rfl, ?_⟩
    exact holder_close_ne holds (sound.session_ne inside (List.mem_of_find?_eq_some first) other)

theorem PostgresAdvisoryLock.Protects.crash (sound : lock.Sound postgres) {p q : Nat} {other : Name}
    (apart : p ≠ q) (protects : lock.Protects postgres advisoryKey q other) :
    (lock.crash postgres p).Protects postgres advisoryKey q other := by
  obtain ⟨h, inside, rfl, rfl, holds⟩ := protects
  refine ⟨h, List.mem_filter.mpr ⟨inside, by simpa using apart.symm⟩, rfl, rfl, ?_⟩
  refine (holder_closes _ _ _ _).2 holds fun ended among => ?_
  obtain ⟨among, process⟩ := List.mem_filter.mp among
  refine sound.session_ne among inside ?_
  rintro rfl
  exact apart (of_decide_eq_true process).symm

def postgresProtection : Protection (postgresAdvisoryLock postgres advisoryKey) where
  shared _ _ := True
  Sound lock := lock.Sound postgres
  Protects lock _ process name _ := lock.Protects postgres advisoryKey process name
  refl _ := trivial
  symm _ := trivial
  sound_acquire sound := sound.acquire advisoryKey
  sound_release sound := sound.release
  sound_crash sound := sound.crash
  later _ protects := protects
  granted {lock p name ttl now fault} sound result := by
    rcases fault with _ | _ | _
    · simp only [postgresAdvisoryLock, PostgresAdvisoryLock.tryAcquire, true_and] at result ⊢
      split at result
      next acquired =>
        rw [if_pos acquired]
        refine ⟨⟨_, List.mem_cons_self, rfl, rfl, ?_⟩, ?_⟩
        · rw [postgres.holder_tryAdvisoryLock, if_pos ⟨acquired, rfl⟩]
        · rintro q expires - ⟨h, inside, -, rfl, holds⟩ -
          have old := (sound.opened h inside).ne
          rcases (postgres.reply ..).mp acquired with free | own
          · rw [holds] at free
            cases free
          · rw [holds] at own
            exact old (Option.some.inj own)
      next => simp at result
    · simp [postgresAdvisoryLock, PostgresAdvisoryLock.tryAcquire] at result
    · simp [postgresAdvisoryLock, PostgresAdvisoryLock.tryAcquire] at result
  acquire_keeps sound _ protects := protects.acquire advisoryKey sound
  release_keeps sound apart _ protects := protects.release advisoryKey sound apart
  crash_keeps sound apart protects := protects.crash advisoryKey sound apart

end Postgres

def Cluster.start (backend : β) : Cluster β := { now := 0, backend, bodies := [] }

variable {L : DistributedLock β}

theorem Protection.start_kept (P : Protection L) (tasks : Nat → Task) {backend : β} (sound : P.Sound backend) :
    (Cluster.start backend).Kept P tasks where
  sound := sound
  once := List.nodup_nil
  protects _ inside := nomatch inside
  exclusive _ inside := nomatch inside

def Apart (tasks : Nat → Task) : Prop :=
  ∀ i j lock lock', (tasks i).process = (tasks j).process → (tasks i).lock = some lock →
    (tasks j).lock = some lock' → lock.name = lock'.name → i = j

def Cluster.Alone (shared : Nat → Nat → Prop) (tasks : Nat → Task) (c : Cluster β) : Prop :=
  ∀ a ∈ c.bodies, ∀ b ∈ c.bodies, Contend shared tasks a b → a = b

section Runs

variable {P : Protection L} {tasks : Nat → Task} {c c' : Cluster β} {events : List Event} {backend : β}

theorem Cluster.Kept.timely_of_apart (kept : c.Kept P tasks) (apart : Apart tasks) (event : Event) :
    c.Timely tasks event := by
  cases event with
  | release task fault =>
    intro a first owner late b second contend
    obtain ⟨process, lock, lock', locked, locked', same⟩ := contend
    have one := apart _ _ _ _ process locked locked' same
    rwa [← eq_of_task kept.once first second one]
  | _ => trivial

def Cluster.Endless (c : Cluster β) : Prop := ∀ b ∈ c.bodies, b.expires = none

theorem Cluster.Endless.current (endless : c.Endless) {b : Body} (inside : b ∈ c.bodies) :
    Current b.expires c.now := by
  intro expiry ends
  rw [endless b inside] at ends
  cases ends

theorem Cluster.Endless.step (never : ∀ ttl now, L.expiry ttl now = none) (endless : c.Endless) {event : Event}
    (stepped : c.step L tasks event = some c') : c'.Endless := by
  cases event with
  | advance time =>
    simp only [Cluster.step, Option.ite_none_right_eq_some, Option.some.injEq] at stepped
    obtain ⟨-, rfl⟩ := stepped
    exact endless
  | tick task fault =>
    simp only [Cluster.step] at stepped
    split at stepped
    · cases stepped
    · split at stepped
      next => cases stepped; simpa [Cluster.Endless] using endless
      next =>
        split at stepped
        next => cases stepped; simpa [Cluster.Endless, never] using endless
        next => cases stepped; exact endless
  | finish task =>
    simp only [Cluster.step, Option.ite_none_right_eq_some, Option.some.injEq] at stepped
    obtain ⟨-, rfl⟩ := stepped
    intro b inside
    obtain ⟨old, among, rfl⟩ := List.mem_map.mp inside
    have lasts := endless old among
    split <;> exact lasts
  | release task fault =>
    have fewer : ∀ b ∈ c.bodies.filter fun b => b.task ≠ task, b.expires = none :=
      fun b inside => endless b (List.mem_filter.mp inside).1
    simp only [Cluster.step] at stepped
    split at stepped
    · split at stepped <;> cases stepped <;> exact fewer
    · cases stepped
  | crash process =>
    cases stepped
    exact fun b inside => endless b (List.mem_filter.mp inside).1

theorem Cluster.Endless.timely (endless : c.Endless) (event : Event) : c.Timely tasks event := by
  cases event with
  | release task fault => exact fun a first _ late => absurd (endless.current first) late
  | _ => trivial

theorem Protection.exclusive (sound : P.Sound backend)
    (timely : Apart tasks ∨
      Along (Cluster.step L tasks) (Cluster.Timely tasks) (Cluster.start backend) events) :
    Always (Cluster.step L tasks) (Cluster.Exclusive P.shared tasks) (Cluster.start backend) events := by
  refine Always.mono (F := Cluster.Kept P tasks) (fun _ kept => kept.exclusive) ?_
  rcases timely with apart | timely
  · exact Along.always (P := fun _ _ => True) (Cluster.Kept P tasks)
      (fun _ event _ _ kept => kept.step (kept.timely_of_apart apart event)) (P.start_kept tasks sound)
      (along_of_forall (fun _ _ _ => trivial) _)
  · exact Along.always (Cluster.Kept P tasks) (fun _ _ _ timely kept => kept.step timely)
      (P.start_kept tasks sound) timely

theorem Protection.alone (sound : P.Sound backend) (never : ∀ ttl now, L.expiry ttl now = none) :
    Always (Cluster.step L tasks) (Cluster.Alone P.shared tasks) (Cluster.start backend) events := by
  have both : Always (Cluster.step L tasks) (fun c => c.Kept P tasks ∧ c.Endless) (Cluster.start backend) events :=
    Along.always (P := fun _ _ => True) _
      (fun _ event _ _ holds stepped => ⟨holds.1.step (holds.2.timely event) stepped, holds.2.step never stepped⟩)
      ⟨P.start_kept tasks sound, fun _ inside => nomatch inside⟩ (along_of_forall (fun _ _ _ => trivial) _)
  refine Always.mono (fun c holds => ?_) both
  exact fun a first b second contend =>
    holds.1.exclusive a first b second contend (holds.2.current first) (holds.2.current second)

end Runs

def PostgresAdvisoryLock.new {σ : Type} (server : σ) (sessions : Nat) : PostgresAdvisoryLock σ :=
  { held := [], sessions, server }

def Redis.table : Redis (Name → Option (Name × Nat)) where
  get s now key := (s key).bind fun entry => if now < entry.2 then some entry.1 else none
  setNxPx s now key token px :=
    if ((s key).bind fun entry => if now < entry.2 then some entry.1 else none) = none then
      (Function.update s key (some (token, now + px)), true)
    else (s, false)
  compareAndDelete s now key token :=
    if ((s key).bind fun entry => if now < entry.2 then some entry.1 else none) = some token then
      Function.update s key none
    else s
  reply s now key token px := by split <;> simp_all
  get_setNxPx s now key token px later other _ := by
    split
    · by_cases same : other = key
      · subst same
        simp
      · simp [same]
    · simp
  get_compareAndDelete s now key token later other _ := by
    split
    · next owned =>
      by_cases same : other = key
      · subst same
        simp [owned]
      · simp [same]
    · next foreign => simp [foreign]

def Postgres.table : Postgres (Int → Option Nat) where
  holder s := s
  tryAdvisoryLock s session key :=
    if s key = none ∨ s key = some session then (Function.update s key (some session), true) else (s, false)
  close s session := fun key => if s key = some session then none else s key
  reply s session key := by split <;> simp_all
  holder_tryAdvisoryLock s session key other := by
    split
    · by_cases same : other = key
      · subst same
        simp
      · simp [same]
    · simp
  holder_close _ _ _ := rfl

def replicated : Nat ↪ Name where
  toFun process := List.replicate process 'a'
  inj' i j same := by simpa using congrArg List.length same

def replicas (task : Nat) : Task := { process := task, lock := some { name := "report".toList, ttl := 60000 } }

-- The lease of the first task has run out when it is given back, and the second one has taken the
-- lock: it is free for the third.
example :
    ¬ Always (Cluster.step inProcess
        fun task => { process := 0, lock := some { name := "report".toList, ttl := if task = 0 then 1 else 9 } })
      (Cluster.Exclusive Eq
        fun task => { process := 0, lock := some { name := "report".toList, ttl := if task = 0 then 1 else 9 } })
      (.start fun _ => .new)
      [.tick 0 none, .advance 5, .tick 1 none, .finish 0, .release 0 none, .tick 2 none] := by
  intro always
  have exclusive := always _ [] (List.append_nil _).symm _ rfl
  have same := exclusive ⟨2, some 14, false⟩ (.head _) ⟨1, some 14, false⟩ (.tail _ (.head _))
    ⟨rfl, _, _, rfl, rfl, rfl⟩ (by simp [Current]) (by simp [Current])
  cases same

end Firefly.Scheduling.Locks
