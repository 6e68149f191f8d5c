import Firefly.Web.Idempotency
import Firefly.Shared.Runs

set_option autoImplicit false

namespace Firefly.Web

open Runs

section Replay

variable {headers : HeaderMap} {name : String}

theorem fromStr_toStr {value : HeaderValue} {text : String} (visible : toStr value = some text) :
    fromStr text = some value := by
  unfold toStr at visible
  split at visible
  next all =>
    obtain rfl := Option.some.inj visible
    have codes : ∀ byte ∈ value, (Char.ofNat byte.toNat).toNat = byte.toNat := by
      intro byte among
      have small := List.all_eq_true.mp all byte among
      simp only [visibleCode, Bool.or_eq_true, Bool.and_eq_true, beq_iff_eq, decide_eq_true_eq] at small
      rw [Char.toNat_ofNat, if_pos]
      left
      omega
    have restored : (value.map fun byte => Char.ofNat byte.toNat).map
        (fun c => UInt8.ofNat c.toNat) = value := by
      rw [List.map_map]
      conv_rhs => rw [← List.map_id value]
      refine List.map_congr_left fun byte among => ?_
      simp [codes byte among]
    have still : (value.map fun byte => Char.ofNat byte.toNat).all
        (fun c => visibleCode c.toNat) = true := by
      rw [List.all_map, List.all_eq_true]
      intro byte among
      show visibleCode (Char.ofNat byte.toNat).toNat = true
      rw [codes byte among]
      exact List.all_eq_true.mp all byte among
    simp only [fromStr, String.toList_ofList]
    rw [if_pos still, restored]
  next => cases visible

@[simp] theorem getAll_insert (headers : HeaderMap) (name other : String) (value : HeaderValue) :
    (headers.insert name value).getAll other =
      if name = other then [value] else headers.getAll other := by
  by_cases same : name = other
  · subst same
    simp [HeaderMap.insert, HeaderMap.getAll, List.filter_append, List.filter_filter]
  · have kept : headers.filter (fun header => header.1 = other && !decide (header.1 = name)) =
        headers.filter (fun header => header.1 = other) := by
      refine List.filter_congr fun header _ => ?_
      by_cases here : header.1 = other
      · simp [here, Ne.symm same]
      · simp [here]
    simp [HeaderMap.insert, HeaderMap.getAll, List.filter_append, List.filter_filter, same, kept]

theorem getAll_plain (distinct : (headers.map Prod.fst).Nodup) :
    headers.getAll name = ((headers.find? (·.1 = name)).map Prod.snd).toList := by
  induction headers with
  | nil => rfl
  | cons header rest ih =>
    obtain ⟨fresh, later⟩ := List.nodup_cons.mp distinct
    by_cases here : header.1 = name
    · have none_later : rest.filter (fun other => other.1 = name) = [] := by
        rw [List.filter_eq_nil_iff]
        intro other among same
        apply fresh
        rw [here, ← (by simpa using same : other.1 = name)]
        exact List.mem_map.mpr ⟨other, among, rfl⟩
      simp [HeaderMap.getAll, here, none_later]
    · simpa [HeaderMap.getAll, here] using ih later

theorem captured (plain : Plain headers) (name : String) (seen : Std.TreeMap String String)
    (fresh : ∀ header ∈ headers, seen[header.1]? = none) :
    (headers.foldl captureHeader seen)[name]? =
      (seen[name]?).or ((headers.find? (·.1 = name)).bind fun header => toStr header.2) := by
  induction headers generalizing seen with
  | nil => simp
  | cons header rest ih =>
    obtain ⟨first, later⟩ := List.nodup_cons.mp plain.1
    obtain ⟨text, visible⟩ := Option.isSome_iff_exists.mp (plain.2 header List.mem_cons_self)
    have unseen := fresh header List.mem_cons_self
    have inserted : captureHeader seen header = seen.insertIfNew header.1 text := by
      simp [captureHeader, visible]
    rw [List.foldl_cons, inserted, ih ⟨later, fun other among =>
      plain.2 other (List.mem_cons_of_mem _ among)⟩]
    · by_cases here : header.1 = name
      · subst here
        have absent : header.1 ∉ seen := by
          rwa [← Std.TreeMap.isSome_getElem?_iff_mem.not, Option.not_isSome_iff_eq_none]
        rw [Std.TreeMap.getElem?_insertIfNew, if_pos ⟨Std.compare_self, absent⟩, unseen,
          List.find?_cons_of_pos (by simp)]
        simp [visible]
      · simp [Std.TreeMap.getElem?_insertIfNew, here]
    · intro other among
      have differs : header.1 ≠ other.1 := by
        intro same
        exact first (same ▸ List.mem_map.mpr ⟨other, among, rfl⟩)
      simp [Std.TreeMap.getElem?_insertIfNew, differs, fresh other (List.mem_cons_of_mem _ among)]

theorem find_toList (map : Std.TreeMap String String) (name : String) :
    map.toList.find? (·.1 = name) = (map[name]?).map fun text => (name, text) := by
  have member : ∀ pair ∈ map.toList, map[pair.1]? = some pair.2 := fun pair among =>
    Std.TreeMap.mem_toList_iff_getElem?_eq_some.mp among
  cases found : map.toList.find? (·.1 = name) with
  | none =>
    cases held : map[name]? with
    | none => rfl
    | some text =>
      have among : (name, text) ∈ map.toList :=
        Std.TreeMap.mem_toList_iff_getElem?_eq_some.mpr held
      have absent := List.find?_eq_none.mp found _ among
      simp at absent
  | some pair =>
    have here : pair.1 = name := by simpa using List.find?_some found
    have held := member pair (List.mem_of_find?_eq_some found)
    rw [here] at held
    rw [held, ← here]
    rfl

theorem replayed_headers (pairs : List (String × String)) (acc : HeaderMap)
    (distinct : (pairs.map Prod.fst).Nodup) (name : String) :
    (pairs.foldl replayHeader acc).getAll name =
      (((pairs.find? (·.1 = name)).bind fun pair => fromStr pair.2).map fun value => [value]).getD
        (acc.getAll name) := by
  induction pairs generalizing acc with
  | nil => rfl
  | cons pair rest ih =>
    obtain ⟨first, later⟩ := List.nodup_cons.mp distinct
    rw [List.foldl_cons, ih _ later]
    by_cases here : pair.1 = name
    · have none_later : rest.find? (fun other => other.1 = name) = none := by
        rw [List.find?_eq_none]
        intro other among same
        apply first
        rw [here, ← (by simpa using same : other.1 = name)]
        exact List.mem_map.mpr ⟨other, among, rfl⟩
      cases value : fromStr pair.2 <;> simp [replayHeader, here, none_later, value]
    · cases value : fromStr pair.2 <;> simp [replayHeader, here, value]

theorem replay_capture (hash : List UInt8 → String) (requestHash : String) {response : Response}
    (success : isSuccess response.status = true) (plain : Plain response.headers) :
    Replays (replay (capture hash requestHash response)) response where
  status := by
    simp only [isSuccess, Bool.and_eq_true, decide_eq_true_eq] at success
    show (if 100 ≤ response.status ∧ response.status < 1000 then response.status else 200) = _
    exact if_pos ⟨by omega, by omega⟩
  body := rfl
  headers := by
    intro name differs
    have distinct : ((response.headers.foldl captureHeader ∅).toList.map Prod.fst).Nodup := by
      have keys := Std.TreeMap.distinct_keys_toList (t := response.headers.foldl captureHeader ∅)
      rw [List.Nodup, List.pairwise_map]
      exact keys.imp fun apart same => apart (by simp [same])
    simp only [replay, capture, getAll_insert, if_neg differs.symm]
    rw [replayed_headers _ _ distinct, find_toList, captured plain name ∅ (by simp),
      getAll_plain plain.1]
    cases found : response.headers.find? (·.1 = name) with
    | none => simp [HeaderMap.getAll]
    | some header =>
      obtain ⟨text, visible⟩ := Option.isSome_iff_exists.mp
        (plain.2 header (List.mem_of_find?_eq_some found))
      simp [visible, fromStr_toStr visible]
  marker := by simp [replay]

end Replay

section Once

variable {config : IdempotencyConfig} {request : Request} {s s' : State}

@[simp] theorem go_stages (s : State) (caller other : Nat) (stage : Stage) :
    (s.go caller stage).stages other = if other = caller then some stage else s.stages other := by
  simp [State.go, Function.update_apply]

@[simp] theorem go_store (s : State) (caller : Nat) (stage : Stage) :
    (s.go caller stage).store = s.store := rfl

@[simp] theorem go_completions (s : State) (caller : Nat) (stage : Stage) :
    (s.go caller stage).completions = s.completions := rfl

inductive Refused : Stage → Prop
  | problem (status : Nat) (detail : String) : Refused (.answered (.problem status detail))
  | response (response : Response) (failed : isSuccess response.status = false) :
      Refused (.answered (.response response))

def OthersRefused (s : State) (busy : List Nat) : Prop :=
  ∀ caller stage, caller ∉ busy → s.stages caller = some stage → Refused stage

theorem OthersRefused.narrow {caller : Nat} {stage : Stage} (others : OthersRefused s [caller])
    (here : s.stages caller = some stage) (refused : Refused stage) : OthersRefused s [] := by
  intro other stage' _ there
  by_cases same : other = caller
  · subst same
    obtain rfl : stage = stage' := Option.some.inj (here.symm.trans there)
    exact refused
  · exact others other stage' (by simpa using same) there

inductive Progress (config : IdempotencyConfig) (request : Request) (s : State) : Prop
  | idle (unknown : s.store[request.key]? = none) (none_yet : s.completions = [])
      (others : OthersRefused s [])
  | calling (caller : Nat) (body : List UInt8) (read : request.body = .ok body)
      (here : s.stages caller = some (.calling (some (request.key, config.hash body))))
      (unknown : s.store[request.key]? = none) (none_yet : s.completions = [])
      (others : OthersRefused s [caller])
  | storing (caller : Nat) (body : List UInt8) (original : Response) (read : request.body = .ok body)
      (success : isSuccess original.status = true) (plain : Plain original.headers)
      (here : s.stages caller = some
        (.storing request.key (capture config.hash (config.hash body) original) original))
      (completed : s.completions = [(caller, original)]) (others : OthersRefused s [caller])
  | stored (caller : Nat) (body : List UInt8) (original : Response) (read : request.body = .ok body)
      (success : isSuccess original.status = true) (plain : Plain original.headers)
      (here : s.stages caller = some (.answered (.response original)))
      (known : s.store[request.key]? = some (capture config.hash (config.hash body) original))
      (completed : s.completions = [(caller, original)])
      (others : ∀ other stage, other ≠ caller → s.stages other = some stage → Refused stage ∨
        ∃ answer, stage = .answered (.response answer) ∧ Replays answer original)

theorem Progress.arrive (progress : Progress config request s) {caller : Nat}
    (covered : request.key ≠ "" ∧ request.method ∈ config.methods)
    (alone : ∀ caller stage, s.stages caller = some stage → stage.pending = false)
    (absent : s.stages caller = none) :
    Progress config request (s.go caller (lookup config s.store request)) := by
  have asked : ¬ (request.key = "" ∨ request.method ∉ config.methods) := by
    rintro (empty | uncovered)
    · exact covered.1 empty
    · exact uncovered covered.2
  cases progress with
  | idle unknown none_yet others =>
    cases read : request.body with
    | error e =>
      have found : lookup config s.store request =
          .answered (.problem 400 ("read body: " ++ e)) := by
        simp [lookup, asked, read]
      refine .idle unknown none_yet fun other stage free there => ?_
      rw [go_stages, found] at there
      split at there
      · obtain rfl := Option.some.inj there
        exact .problem _ _
      · exact others other stage free there
    | ok body =>
      have found : lookup config s.store request =
          .calling (some (request.key, config.hash body)) := by
        simp [lookup, asked, read, unknown]
      refine .calling caller body read (by simp [found]) unknown none_yet fun other stage free there => ?_
      rw [go_stages, if_neg (by simpa using free)] at there
      exact others other stage (by simp) there
  | calling winner body read here => cases alone winner _ here
  | storing winner body original read success plain here => cases alone winner _ here
  | stored winner body original read success plain here known completed others =>
    -- the record is there, and the request is the one it was made for
    have found : lookup config s.store request = .answered (.response
        (replay (capture config.hash (config.hash body) original))) := by
      simp [lookup, asked, read, known, capture]
    have differs : winner ≠ caller := by
      rintro rfl
      simp [absent] at here
    refine .stored winner body original read success plain (by simp [here, differs]) known completed
      fun other stage apart there => ?_
    rw [go_stages, found] at there
    split at there
    · exact .inr ⟨_, (Option.some.inj there).symm, replay_capture config.hash _ success plain⟩
    · exact others other stage apart there

theorem Progress.calling_of (progress : Progress config request s) {caller : Nat}
    {recording : Option (String × String)} (here : s.stages caller = some (.calling recording)) :
    ∃ body, request.body = .ok body ∧ recording = some (request.key, config.hash body) ∧
      s.store[request.key]? = none ∧ s.completions = [] ∧ OthersRefused s [caller] := by
  cases progress with
  | idle _ _ others => cases others caller _ (by simp) here
  | calling winner body read there unknown none_yet others =>
    by_cases same : caller = winner
    · subst same
      have stages := Option.some.inj (here.symm.trans there)
      exact ⟨body, read, Stage.calling.inj stages, unknown, none_yet, others⟩
    · cases others caller _ (by simpa using same) here
  | storing winner body original read success plain there completed others =>
    by_cases same : caller = winner
    · subst same
      cases here.symm.trans there
    · cases others caller _ (by simpa using same) here
  | stored winner body original read success plain there known completed others =>
    by_cases same : caller = winner
    · subst same
      cases here.symm.trans there
    · rcases others caller _ same here with refused | ⟨answer, answered, _⟩
      · cases refused
      · cases answered

theorem Progress.storing_of (progress : Progress config request s) {caller : Nat} {key : String}
    {record : IdempotencyRecord} {response : Response}
    (here : s.stages caller = some (.storing key record response)) :
    key = request.key ∧ ∃ body, request.body = .ok body ∧ isSuccess response.status = true ∧
      Plain response.headers ∧ record = capture config.hash (config.hash body) response ∧
      s.completions = [(caller, response)] ∧ OthersRefused s [caller] := by
  cases progress with
  | idle _ _ others => cases others caller _ (by simp) here
  | calling winner body read there unknown none_yet others =>
    by_cases same : caller = winner
    · subst same
      cases here.symm.trans there
    · cases others caller _ (by simpa using same) here
  | storing winner body original read success plain there completed others =>
    by_cases same : caller = winner
    · subst same
      obtain ⟨rfl, rfl, rfl⟩ := Stage.storing.inj (Option.some.inj (here.symm.trans there))
      exact ⟨rfl, body, read, success, plain, rfl, completed, others⟩
    · cases others caller _ (by simpa using same) here
  | stored winner body original read success plain there known completed others =>
    by_cases same : caller = winner
    · subst same
      cases here.symm.trans there
    · rcases others caller _ same here with refused | ⟨answer, answered, _⟩
      · cases refused
      · cases answered

theorem Progress.respond (progress : Progress config request s) {caller : Nat}
    {recording : Option (String × String)} (here : s.stages caller = some (.calling recording))
    (response : Response) (failure : Option String)
    (plain : isSuccess response.status = true → Plain response.headers) :
    Progress config request ({ s with
      completions :=
        if isSuccess response.status && failure.isNone then s.completions ++ [(caller, response)]
        else s.completions }.go caller (record config recording response failure)) := by
  obtain ⟨body, read, rfl, unknown, none_yet, others⟩ := progress.calling_of here
  have elsewhere : ∀ completions stage', OthersRefused
      ({ s with completions := completions }.go caller stage') [caller] := by
    intro completions stage' other stage free there
    rw [go_stages, if_neg (by simpa using free)] at there
    exact others other stage free there
  cases success : isSuccess response.status with
  | false =>
    refine .idle unknown (by simpa using none_yet) ?_
    refine (elsewhere _ _).narrow (go_stages _ _ _ _ |>.trans (if_pos rfl)) ?_
    simpa [record, success] using Refused.response response success
  | true =>
    cases failure with
    | some e =>
      refine .idle unknown (by simpa using none_yet) ?_
      refine (elsewhere _ _).narrow (go_stages _ _ _ _ |>.trans (if_pos rfl)) ?_
      simpa [record, success] using Refused.problem 400 ("capture response body: " ++ e)
    | none =>
      refine .storing caller body response read success (plain success) ?_ ?_ (elsewhere _ _)
      · simp [record, success]
      · simp [none_yet]

theorem Progress.put (progress : Progress config request s) {caller : Nat} {key : String}
    {record : IdempotencyRecord} {response : Response}
    (here : s.stages caller = some (.storing key record response)) :
    Progress config request
      ({ s with store := s.store.insert key record }.go caller (.answered (.response response))) := by
  obtain ⟨rfl, body, read, success, plain, rfl, completed, others⟩ := progress.storing_of here
  refine .stored caller body response read success plain (by simp) (by simp) completed ?_
  intro other stage apart there
  rw [go_stages, if_neg apart] at there
  exact .inl (others other stage (by simpa using apart) there)

theorem Progress.step (progress : Progress config request s) {choice : Choice}
    (alone : Alone config request s choice) (stepped : step config request s choice = some s') :
    Progress config request s' := by
  cases choice with
  | arrive caller =>
    simp only [Web.step] at stepped
    split at stepped
    next absent =>
      obtain rfl := Option.some.inj stepped
      exact progress.arrive ⟨alone.1, alone.2.1⟩ alone.2.2 absent
    next => cases stepped
  | respond caller response failure =>
    simp only [Web.step] at stepped
    split at stepped
    next recording here =>
      obtain rfl := Option.some.inj stepped
      exact progress.respond here response failure alone
    next => cases stepped
  | put caller =>
    simp only [Web.step] at stepped
    split at stepped
    next key record response here =>
      obtain rfl := Option.some.inj stepped
      exact progress.put here
    next => cases stepped

theorem Refused.not_success {response : Response}
    (refused : Refused (.answered (.response response))) : isSuccess response.status ≠ true := by
  cases refused with
  | response _ failed => simp [failed]

theorem Progress.executedOnce (progress : Progress config request s) : ExecutedOnce s := by
  cases progress with
  | idle unknown none_yet others =>
    refine ⟨by simp [none_yet], fun caller response there success => ?_⟩
    exact absurd success (others caller _ (by simp) there).not_success
  | calling winner body read here unknown none_yet others =>
    refine ⟨by simp [none_yet], fun caller response there success => ?_⟩
    by_cases same : caller = winner
    · subst same
      cases here.symm.trans there
    · exact absurd success (others caller _ (by simpa using same) there).not_success
  | storing winner body original read _ plain here completed others =>
    refine ⟨by simp [completed], fun caller response there success => ?_⟩
    by_cases same : caller = winner
    · subst same
      cases here.symm.trans there
    · exact absurd success (others caller _ (by simpa using same) there).not_success
  | stored winner body original read _ plain here known completed others =>
    refine ⟨by simp [completed], fun caller response there success =>
      ⟨winner, original, completed, ?_, ?_⟩⟩
    · rintro rfl
      exact (Answer.response.inj (Stage.answered.inj (Option.some.inj (here.symm.trans there)))).symm
    · intro apart
      rcases others caller _ apart there with refused | ⟨answer, answered, replays⟩
      · exact absurd success refused.not_success
      · obtain rfl : response = answer := Answer.response.inj (Stage.answered.inj answered)
        exact replays

theorem idempotency_key_executes_once (config : IdempotencyConfig) (request : Request)
    (choices : List Choice)
    (alone : Along (step config request) (Alone config request) start choices) :
    Always (step config request) ExecutedOnce start choices := by
  have initial : Progress config request start :=
    .idle (by simp [start]) rfl fun _ _ _ there => by simp [start] at there
  have always := alone.always (Progress config request)
    (fun s choice s' allowed progress stepped => progress.step allowed stepped) initial
  exact always.mono fun s progress => progress.executedOnce

end Once

def postings : IdempotencyConfig where
  methods := ["POST", "PUT", "PATCH"]
  hash := fun body => String.ofList (body.map fun byte => Char.ofNat byte.toNat)

def payment : Request where
  idempotencyKey := some [116, 114, 45, 49]
  method := "POST"
  body := .ok [49, 48, 48]

def paid (receipt : UInt8) : Response where
  status := 201
  headers := [("location", [47, receipt])]
  body := [receipt]

theorem idempotency_key_executes_once_retried :
    Always (step postings payment) ExecutedOnce start
      [.arrive 0, .respond 0 (paid 49) none, .put 0, .arrive 1] := by
  refine idempotency_key_executes_once postings payment _ ?_
  have covered : payment.key ≠ "" ∧ payment.method ∈ postings.methods := by decide
  have plain : Plain (paid 49).headers := by
    refine ⟨by decide, ?_⟩
    intro header among
    obtain rfl := List.mem_singleton.mp among
    decide
  refine ⟨⟨covered.1, covered.2, by simp [start]⟩, ?_⟩
  rintro _ ⟨⟩
  refine ⟨fun _ => plain, ?_⟩
  rintro _ ⟨⟩
  refine ⟨trivial, ?_⟩
  rintro _ ⟨⟩
  refine ⟨⟨covered.1, covered.2, ?_⟩, fun _ _ => trivial⟩
  intro caller stage there
  by_cases first : caller = 0
  · subst first
    obtain rfl : Stage.answered (.response (paid 49)) = stage := Option.some.inj there
    rfl
  · simp [start, State.go, first] at there

-- The retry comes while the first request is still with the inner service.
theorem one_key_executes_twice :
    ¬ Always (step postings payment) ExecutedOnce start
      [.arrive 0, .arrive 1, .respond 0 (paid 49) none, .respond 1 (paid 50) none] := by
  intro always
  obtain ⟨s, ran, twice⟩ : ∃ s, run (step postings payment) start
      [.arrive 0, .arrive 1, .respond 0 (paid 49) none, .respond 1 (paid 50) none] = some s ∧
      s.completions = [(0, paid 49), (1, paid 50)] := ⟨_, rfl, rfl⟩
  have once := (always _ [] (List.append_nil _).symm s ran).once
  simp [twice] at once

end Firefly.Web
