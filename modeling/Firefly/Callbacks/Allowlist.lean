import Firefly.Shared.Decimal
import Firefly.Shared.Text

set_option autoImplicit false

namespace Firefly.Callbacks

open Text

structure AuthorizedDomain where
  domain : List Char

def endsAuthority (c : Char) : Bool := c = '/' || c = '?' || c = '#'

def hostOf (url : List Char) : Option (List Char) :=
  match splitOnce "://".toList url with
  | none => none
  | some (_, afterScheme) =>
    let authority := afterScheme.takeWhile fun c => !endsAuthority c
    let hostPort := ((rsplitOnce '@' authority).map Prod.snd).getD authority
    match hostPort with
    | '[' :: rest =>
      match splitOnce [']'] rest with
      | none => none
      | some (inner, _) => some (asciiLower ('[' :: inner ++ [']']))
    | hostPort => some (asciiLower (hostPort.takeWhile (· ≠ ':')))

def AuthorizedDomain.allowed (entry : AuthorizedDomain) : List Char := asciiLower (trim entry.domain)

def covers (domains : List AuthorizedDomain) (host : List Char) : Bool :=
  domains.any fun entry =>
    entry.allowed ≠ [] && (host = entry.allowed || ('.' :: entry.allowed).isSuffixOf host)

def isAuthorized (targetUrl : List Char) (domains : List AuthorizedDomain) : Bool :=
  match hostOf targetUrl with
  | none => false
  | some host => if host = [] then false else covers domains host

def isControlOrSpace (c : Char) : Bool := c.toNat ≤ 32

def isTabOrNewline (c : Char) : Bool := c = '\t' || c = '\n' || c = '\r'

def cleaned (url : List Char) : List Char :=
  ((url.dropWhile isControlOrSpace).rdropWhile isControlOrSpace).filter fun c => !isTabOrNewline c

def isSlash (c : Char) : Bool := c = '/' || c = '\\'

def hostText : Bool → List Char → List Char × List Char
  | _, [] => ([], [])
  | inside, c :: rest =>
    if c = ':' ∧ inside = false then ([], c :: rest)
    else
      let inside := if c = '[' then true else if c = ']' then false else inside
      (c :: (hostText inside rest).1, (hostText inside rest).2)

def validPort : List Char → Bool
  | [] => true
  | _ :: digits => digits.all Char.isDigit && Decimal.value digits < 2 ^ 16

def validHost : List Char → Bool
  | [] => false
  | '[' :: rest => (splitOnce [']'] rest).any fun parts => parts.2 = []
  | host => '[' ∉ host && ']' ∉ host

-- What an HTTP client takes as the host of the URL, as it stands there in lower case: percent
-- escapes, internationalised names and the forms of IP addresses are left as they are.
def clientHost (url : List Char) : Option (List Char) :=
  match splitOnce [':'] (cleaned url) with
  | none => none
  | some (scheme, rest) =>
    if asciiLower scheme ≠ "http".toList ∧ asciiLower scheme ≠ "https".toList then none
    else
      let authority := (rest.dropWhile isSlash).takeWhile fun c =>
        !(isSlash c || c = '?' || c = '#')
      let hostPort := ((rsplitOnce '@' authority).map Prod.snd).getD authority
      let (host, port) := hostText false hostPort
      if validHost host && validPort port then some (asciiLower host) else none

structure Parts (scheme userinfo host port rest : List Char) : Prop where
  schemed : ':' ∉ scheme
  closed : userinfo = [] ∨ ∃ user, userinfo = user ++ ['@']
  user : ∀ c ∈ userinfo, endsAuthority c = false ∧ c ≠ '\\'
  bare : ∀ c ∈ host, endsAuthority c = false ∧ c ≠ '\\' ∧ c ≠ '@' ∧ isTabOrNewline c = false
  bracketed : ('[' ∉ host ∧ ':' ∉ host) ∨ ∃ inner, host = '[' :: inner ++ [']'] ∧ ']' ∉ inner
  opened : port = [] ∨ ∃ digits, port = ':' :: digits
  ported : ∀ c ∈ port, endsAuthority c = false ∧ c ≠ '@'
  rested : ∀ c, rest.head? = some c → endsAuthority c = true

def assemble (scheme userinfo host port rest : List Char) : List Char :=
  scheme ++ "://".toList ++ (userinfo ++ (host ++ (port ++ rest)))

/-- No host at all is sent to, or none is read, or the host stands in the URL as it is, up to its
last character, which is not one that is trimmed off the end of the URL. -/
def ReadAlike (url : List Char) : Prop :=
  clientHost url = none ∨ splitOnce "://".toList url = none ∨
  ∃ scheme userinfo host port rest, url = assemble scheme userinfo host port rest ∧
    Parts scheme userinfo host port rest ∧
    (port ++ rest = [] → ∀ c, host.getLast? = some c → isControlOrSpace c = false)

section Readings

variable {scheme userinfo host port rest url : List Char}

theorem takeWhile_to {p : Char → Bool} {before after : List Char} (inside : ∀ c ∈ before, p c = true)
    (stop : ∀ c, after.head? = some c → p c = false) : (before ++ after).takeWhile p = before := by
  rw [List.takeWhile_append_of_pos inside]
  cases after with
  | nil => simp
  | cons c after => simp [stop c rfl]

theorem takeWhile_append_stop {p : Char → Bool} {before after : List Char}
    (stop : ∀ c, after.head? = some c → p c = false) :
    (before ++ after).takeWhile p = before.takeWhile p := by
  induction before with
  | nil => exact takeWhile_to (by simp) stop
  | cons c before ih => by_cases taken : p c = true <;> simp [taken, ih]

theorem after_userinfo (userinfo_ends : userinfo = [] ∨ ∃ user, userinfo = user ++ ['@'])
    {hostPort : List Char} (plain : '@' ∉ hostPort) :
    ((rsplitOnce '@' (userinfo ++ hostPort)).map Prod.snd).getD (userinfo ++ hostPort) = hostPort := by
  rcases userinfo_ends with rfl | ⟨user, rfl⟩
  · rw [List.nil_append, rsplitOnce_none plain]
    rfl
  · rw [List.append_assoc, List.singleton_append, rsplitOnce_append plain]
    rfl

theorem Parts.no_at (parts : Parts scheme userinfo host port rest) : '@' ∉ host ++ port := by
  intro among
  rcases List.mem_append.mp among with inHost | inPort
  · exact (parts.bare _ inHost).2.2.1 rfl
  · exact (parts.ported _ inPort).2 rfl

theorem hostOf_assemble (parts : Parts scheme userinfo host port rest) :
    hostOf (assemble scheme userinfo host port rest) = some (asciiLower host) := by
  have split : splitOnce "://".toList (assemble scheme userinfo host port rest) =
      some (scheme, userinfo ++ (host ++ (port ++ rest))) := by
    refine splitOnce_append (fun d among first => parts.schemed ?_) (by simp)
    obtain rfl : ':' = d := by simpa using first
    exact among
  have authority : (userinfo ++ (host ++ (port ++ rest))).takeWhile (fun c => !endsAuthority c) =
      userinfo ++ (host ++ port) := by
    have regrouped : userinfo ++ (host ++ (port ++ rest)) = userinfo ++ (host ++ port) ++ rest := by
      simp
    rw [regrouped]
    refine takeWhile_to (fun c among => ?_) fun c first => by simp [parts.rested c first]
    rcases List.mem_append.mp among with inUser | later
    · simp [(parts.user c inUser).1]
    · rcases List.mem_append.mp later with inHost | inPort
      · simp [(parts.bare c inHost).1]
      · simp [(parts.ported c inPort).1]
  simp only [hostOf, split, authority, after_userinfo parts.closed parts.no_at]
  rcases parts.bracketed with ⟨noBracket, noColon⟩ | ⟨inner, rfl, closed⟩
  · have cut : (host ++ port).takeWhile (· ≠ ':') = host := by
      refine takeWhile_to (fun c among => ?_) fun c first => ?_
      · have differs : c ≠ ':' := fun same => noColon (same ▸ among)
        simpa using differs
      · rcases parts.opened with rfl | ⟨digits, rfl⟩
        · simp at first
        · simp at first
          simp [← first]
    split
    next tail starts =>
      exfalso
      cases host with
      | nil =>
        rcases parts.opened with rfl | ⟨digits, rfl⟩ <;> simp at starts
      | cons c host =>
        obtain rfl : c = '[' := (List.cons.inj starts).1
        exact noBracket (by simp)
    next => rw [cut]
  · have closes : splitOnce [']'] (inner ++ [']'] ++ port) = some (inner, port) := by
      refine splitOnce_append (fun d among first => closed ?_) (by simp)
      obtain rfl : ']' = d := by simpa using first
      exact among
    simp only [List.cons_append, closes]

theorem rdropWhile_append_dark {p : Char → Bool} (before after : List Char) {c : Char}
    (dark : p c = false) : (before ++ c :: after).rdropWhile p = before ++ c :: after.rdropWhile p := by
  induction after using List.reverseRecOn with
  | nil =>
    rw [List.rdropWhile_concat_neg _ _ _ (by simp [dark])]
    simp
  | append_singleton after d ih =>
    have regrouped : before ++ c :: (after ++ [d]) = before ++ c :: after ++ [d] := by simp
    cases trimmed : p d with
    | true =>
      rw [regrouped, List.rdropWhile_concat_pos _ _ _ trimmed, ih,
        List.rdropWhile_concat_pos _ _ _ trimmed]
    | false =>
      rw [regrouped, List.rdropWhile_concat_neg _ _ _ (by simp [trimmed]),
        List.rdropWhile_concat_neg _ _ _ (by simp [trimmed])]
      simp

theorem dropWhile_append_dark {p : Char → Bool} (before after : List Char) {c : Char}
    (dark : p c = false) : (before ++ c :: after).dropWhile p = before.dropWhile p ++ c :: after := by
  induction before with
  | nil => simp [dark]
  | cons d before ih => by_cases trimmed : p d = true <;> simp [trimmed, ih]

theorem mem_rdropWhile {p : Char → Bool} {text : List Char} {c : Char}
    (among : c ∈ text.rdropWhile p) : c ∈ text :=
  (List.rdropWhile_prefix p text).subset among

theorem trimmed_tail (parts : Parts scheme userinfo host port rest) (tail : port ++ rest ≠ [])
    (before : List Char) : ∃ port' rest',
      (before ++ (port ++ rest)).rdropWhile isControlOrSpace = before ++ (port' ++ rest') ∧
      (port' = [] ∨ ∃ digits, port' = ':' :: digits) ∧ (∀ c ∈ port', c ∈ port) ∧
      ∀ c, rest'.head? = some c → endsAuthority c = true := by
  cases rest with
  | cons c rest =>
    have ends := parts.rested c rfl
    have dark : isControlOrSpace c = false := by
      simp only [endsAuthority, Bool.or_eq_true, decide_eq_true_eq] at ends
      rcases ends with (rfl | rfl) | rfl <;> decide
    refine ⟨port, c :: rest.rdropWhile isControlOrSpace, ?_, parts.opened, fun _ => id, ?_⟩
    · rw [← List.append_assoc, rdropWhile_append_dark _ _ dark, List.append_assoc]
    · simpa using ends
  | nil =>
    rcases parts.opened with rfl | ⟨digits, rfl⟩
    · simp at tail
    · refine ⟨':' :: digits.rdropWhile isControlOrSpace, [], ?_, .inr ⟨_, rfl⟩, ?_, by simp⟩
      · simp only [List.append_nil]
        exact rdropWhile_append_dark _ _ (by decide)
      · intro c among
        rcases List.mem_cons.mp among with rfl | later
        · simp
        · exact List.mem_cons_of_mem _ (mem_rdropWhile later)

theorem kept_of_bare {text : List Char} (bare : ∀ c ∈ text, isTabOrNewline c = false) :
    text.filter (fun c => !isTabOrNewline c) = text := by
  rw [List.filter_eq_self]
  intro c among
  simp [bare c among]

theorem assemble_cleaned (parts : Parts scheme userinfo host port rest) (present : host ≠ [])
    (untrimmed : port ++ rest = [] → ∀ c, host.getLast? = some c → isControlOrSpace c = false) :
    ∃ scheme' userinfo' port' rest',
      cleaned (assemble scheme userinfo host port rest) =
        assemble scheme' userinfo' host port' rest' ∧
      Parts scheme' userinfo' host port' rest' := by
  -- the beginning is trimmed in the scheme at most
  obtain ⟨scheme', front, schemed⟩ : ∃ scheme',
      (assemble scheme userinfo host port rest).dropWhile isControlOrSpace =
        assemble scheme' userinfo host port rest ∧ ':' ∉ scheme' := by
    refine ⟨scheme.dropWhile isControlOrSpace, ?_, fun among =>
      parts.schemed ((List.dropWhile_suffix _).subset among)⟩
    simp only [assemble, List.append_assoc]
    exact dropWhile_append_dark _ _ (by decide)
  -- the end is trimmed after the host at most
  obtain ⟨port', rest', back, ported, among_port, ends⟩ : ∃ port' rest',
      (assemble scheme' userinfo host port rest).rdropWhile isControlOrSpace =
        assemble scheme' userinfo host port' rest' ∧
      (port' = [] ∨ ∃ digits, port' = ':' :: digits) ∧ (∀ c ∈ port', c ∈ port) ∧
      ∀ c, rest'.head? = some c → endsAuthority c = true := by
    by_cases tail : port ++ rest = []
    · obtain ⟨rfl, rfl⟩ := List.append_eq_nil_iff.mp tail
      obtain ⟨init, last, same⟩ := (List.eq_nil_or_concat host).resolve_left present
      obtain rfl : host = init ++ [last] := by simpa using same
      have dark := untrimmed rfl last (by simp)
      refine ⟨[], [], ?_, .inl rfl, fun _ => id, by simp⟩
      have regrouped : assemble scheme' userinfo (init ++ [last]) [] [] =
          scheme' ++ "://".toList ++ (userinfo ++ init) ++ [last] := by simp [assemble]
      rw [regrouped, List.rdropWhile_concat_neg _ _ _ (by simp [dark])]
    · obtain ⟨port', rest', trimmed, facts⟩ := trimmed_tail parts tail
        (scheme' ++ "://".toList ++ (userinfo ++ host))
      refine ⟨port', rest', ?_, facts⟩
      simpa [assemble] using trimmed
  refine ⟨scheme'.filter fun c => !isTabOrNewline c, userinfo.filter fun c => !isTabOrNewline c,
    port'.filter fun c => !isTabOrNewline c, rest'.filter fun c => !isTabOrNewline c, ?_, ?_⟩
  · rw [cleaned, front, back]
    simp only [assemble, List.filter_append, kept_of_bare fun c among => (parts.bare c among).2.2.2]
    rfl
  · refine ⟨fun among => schemed (List.mem_filter.mp among).1, ?_, ?_, parts.bare, parts.bracketed,
      ?_, ?_, ?_⟩
    · rcases parts.closed with rfl | ⟨user, rfl⟩
      · exact .inl rfl
      · exact .inr ⟨user.filter fun c => !isTabOrNewline c, by simp [List.filter_append]; decide⟩
    · exact fun c among => parts.user c (List.mem_filter.mp among).1
    · rcases ported with rfl | ⟨digits, rfl⟩
      · exact .inl rfl
      · exact .inr ⟨digits.filter fun c => !isTabOrNewline c, by
          rw [List.filter_cons_of_pos (by decide)]⟩
    · exact fun c among => parts.ported c (among_port c (List.mem_filter.mp among).1)
    · cases rest' with
      | nil => simp
      | cons d rest' =>
        have ended := ends d rfl
        have kept : isTabOrNewline d = false := by
          simp only [endsAuthority, Bool.or_eq_true, decide_eq_true_eq] at ended
          rcases ended with (rfl | rfl) | rfl <;> decide
        simpa [kept] using ended

theorem hostText_assemble (parts : Parts scheme userinfo host port rest) {tail : List Char}
    (ported : tail = [] ∨ ∃ digits, tail = ':' :: digits) :
    hostText false (host ++ tail) = (host, tail) := by
  have stops : hostText false tail = ([], tail) := by
    rcases ported with rfl | ⟨digits, rfl⟩ <;> simp [hostText]
  rcases parts.bracketed with ⟨noBracket, noColon⟩ | ⟨inner, rfl, closed⟩
  · clear parts
    induction host with
    | nil => exact stops
    | cons c host ih =>
      have later := ih (fun among => noBracket (by simp [among])) fun among => noColon (by simp [among])
      have plain : c ≠ ':' ∧ c ≠ '[' :=
        ⟨fun same => noColon (by simp [same]), fun same => noBracket (by simp [same])⟩
      simp [hostText, plain.1, plain.2, later]
  · -- inside the brackets a colon does not end the host
    have inside : ∀ inner : List Char, ']' ∉ inner →
        hostText true (inner ++ (']' :: tail)) = (inner ++ [']'], tail) := by
      intro inner open_
      induction inner with
      | nil => simp [hostText, stops]
      | cons c inner ih =>
        have differs : c ≠ ']' := fun same => open_ (by simp [same])
        have later := ih fun among => open_ (by simp [among])
        by_cases bracket : c = '[' <;> simp [hostText, differs, bracket, later]
    have opened := inside inner closed
    simp [hostText, opened]

theorem clientHost_assemble (parts : Parts scheme userinfo host port rest) (present : host ≠ [])
    (untrimmed : port ++ rest = [] → ∀ c, host.getLast? = some c → isControlOrSpace c = false)
    {contacted : List Char}
    (found : clientHost (assemble scheme userinfo host port rest) = some contacted) :
    contacted = asciiLower host := by
  obtain ⟨scheme', userinfo', port', rest', clean, parts'⟩ :=
    assemble_cleaned parts present untrimmed
  have split : splitOnce [':'] (assemble scheme' userinfo' host port' rest') =
      some (scheme', "//".toList ++ (userinfo' ++ (host ++ (port' ++ rest')))) := by
    have regrouped : assemble scheme' userinfo' host port' rest' =
        scheme' ++ [':'] ++ ("//".toList ++ (userinfo' ++ (host ++ (port' ++ rest')))) := by
      simp [assemble]
    rw [regrouped]
    refine splitOnce_append (fun d among first => parts'.schemed ?_) (by simp)
    obtain rfl : ':' = d := by simpa using first
    exact among
  have unslashed : ∀ c ∈ userinfo' ++ host, isSlash c = false ∧ c ≠ '?' ∧ c ≠ '#' := by
    intro c among
    obtain ⟨ends, escape⟩ : endsAuthority c = false ∧ c ≠ '\\' := by
      rcases List.mem_append.mp among with inUser | inHost
      · exact parts'.user c inUser
      · exact ⟨(parts'.bare c inHost).1, (parts'.bare c inHost).2.1⟩
    simp only [endsAuthority, Bool.or_eq_false_iff, decide_eq_false_iff_not] at ends
    simp [isSlash, escape, ends.1.1, ends.1.2, ends.2]
  have slashes : ("//".toList ++ (userinfo' ++ (host ++ (port' ++ rest')))).dropWhile isSlash =
      userinfo' ++ host ++ (port' ++ rest') := by
    obtain ⟨c, after, starts⟩ : ∃ c after, userinfo' ++ host = c :: after :=
      List.exists_cons_of_ne_nil (by simp [present])
    have first := (unslashed c (by simp [starts])).1
    rw [← List.append_assoc userinfo', starts]
    have two : (isSlash '/') = true := by decide
    simp [two, first]
  -- the authority ends at the latest where the port does
  obtain ⟨tail, authority, ported, noAt⟩ : ∃ tail,
      (userinfo' ++ host ++ (port' ++ rest')).takeWhile
        (fun c => !(isSlash c || c = '?' || c = '#')) = userinfo' ++ (host ++ tail) ∧
      (tail = [] ∨ ∃ digits, tail = ':' :: digits) ∧ '@' ∉ host ++ tail := by
    refine ⟨(port' ++ rest').takeWhile fun c => !(isSlash c || c = '?' || c = '#'), ?_, ?_, ?_⟩
    · rw [List.takeWhile_append_of_pos, List.append_assoc]
      intro c among
      have facts := unslashed c among
      simp [facts.1, facts.2.1, facts.2.2]
    · rcases parts'.opened with rfl | ⟨digits, rfl⟩
      · left
        cases rest' with
        | nil => rfl
        | cons d rest' =>
          have ended := parts'.rested d rfl
          simp only [endsAuthority, Bool.or_eq_true, decide_eq_true_eq] at ended
          rcases ended with (rfl | rfl) | rfl <;> rfl
      · exact .inr ⟨(digits ++ rest').takeWhile fun c => !(isSlash c || c = '?' || c = '#'), by
          rw [List.cons_append, List.takeWhile_cons_of_pos (by decide)]⟩
    · intro among
      rcases List.mem_append.mp among with inHost | inTail
      · exact (parts'.bare _ inHost).2.2.1 rfl
      · rw [takeWhile_append_stop fun c first => by
          have ended := parts'.rested c first
          simp only [endsAuthority, Bool.or_eq_true, decide_eq_true_eq] at ended
          rcases ended with (rfl | rfl) | rfl <;> rfl] at inTail
        exact (parts'.ported _ (List.takeWhile_subset _ inTail)).2 rfl
  have texts := hostText_assemble parts' ported
  simp only [clientHost, clean, split, slashes, authority, after_userinfo parts'.closed noAt,
    texts] at found
  split at found
  · cases found
  · split at found
    · exact (Option.some.inj found).symm
    · cases found

end Readings

theorem allowed_host_contacted (url : List Char) (domains : List AuthorizedDomain)
    (alike : ReadAlike url) (authorized : isAuthorized url domains = true) {host : List Char}
    (contacted : clientHost url = some host) : covers domains host = true := by
  rcases alike with unsent | unread | ⟨scheme, userinfo, read, port, rest, rfl, parts, untrimmed⟩
  · cases unsent.symm.trans contacted
  · simp only [isAuthorized, hostOf, unread] at authorized
    cases authorized
  · simp only [isAuthorized, hostOf_assemble parts] at authorized
    split at authorized
    · cases authorized
    next present =>
      have named : read ≠ [] := by
        rintro rfl
        exact present rfl
      rw [clientHost_assemble parts named untrimmed contacted]
      exact authorized

theorem allowed_host_contacted_subdomain :
    covers [⟨"ok.io".toList⟩] "a.ok.io".toList = true := by
  refine allowed_host_contacted "http://u@A.ok.io:8/h".toList _
    (.inr (.inr ⟨"http".toList, "u@".toList, "A.ok.io".toList, ":8".toList, "/h".toList,
      by decide, ?_, by decide⟩)) (by decide +kernel) (by decide +kernel)
  refine ⟨by decide, .inr ⟨"u".toList, by decide⟩, by simp [endsAuthority],
    by simp [endsAuthority, isTabOrNewline], .inl (by decide), .inr ⟨"8".toList, by decide⟩,
    by simp [endsAuthority], ?_⟩
  intro c first
  obtain rfl : '/' = c := Option.some.inj first
  rfl

-- The client takes the backslash for a slash, so the trusted name is in the path.
theorem backslash_contacts_another_host :
    ¬ ∀ (url : List Char) (domains : List AuthorizedDomain), domains ≠ [] →
      isAuthorized url domains = true → ∀ host, clientHost url = some host →
        covers domains host = true := by
  intro safe
  have covered := safe "http://evil.com\\@ok.io/h".toList [⟨"ok.io".toList⟩]
    (by simp) (by decide +kernel) "evil.com".toList (by decide +kernel)
  exact absurd covered (by decide)

end Firefly.Callbacks
