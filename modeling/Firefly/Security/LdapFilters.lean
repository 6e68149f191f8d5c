import Firefly.Shared.Encoding
import Firefly.Shared.SearchFilter

set_option autoImplicit false

namespace Firefly.Security.Ldap

open Holes SearchFilter Encoding

abbrev Text := List Char

structure LdapEntry where
  dn : Text
  attrs : Text → Option (List Text)

def LdapEntry.first (entry : LdapEntry) (name : Text) : Option Text := (entry.attrs name).bind List.head?

inductive SecurityError where
  | verification (message : String)
  | other
deriving DecidableEq, Repr

structure LdapOperations where
  search : Text → Text → List Text → Except SecurityError (List LdapEntry)
  bind : Text → Text → Except SecurityError Unit

inductive Request where
  | search (base filter : Text) (attrs : List Text)
  | bind (dn password : Text)
deriving DecidableEq

abbrev Exchange (α : Type) := List Request × Except SecurityError α

section Exchanges

variable {α β : Type}

def Exchange.done (result : Except SecurityError α) : Exchange α := ([], result)

def Exchange.andThen (first : Exchange α) (next : α → Exchange β) : Exchange β :=
  match first with
  | (sent, .error e) => (sent, .error e)
  | (sent, .ok a) => (sent ++ (next a).1, (next a).2)

@[simp] theorem andThen_ok (sent : List Request) (a : α) (next : α → Exchange β) :
    Exchange.andThen (sent, .ok a) next = (sent ++ (next a).1, (next a).2) := rfl

@[simp] theorem andThen_error (sent : List Request) (e : SecurityError) (next : α → Exchange β) :
    Exchange.andThen (sent, .error e) next = (sent, .error e) := rfl

@[simp] theorem andThen_done (first : Exchange α) (next : α → Except SecurityError β) :
    (first.andThen fun a => .done (next a)).1 = first.1 := by
  obtain ⟨sent, e | a⟩ := first <;> simp [Exchange.done]

end Exchanges

def LdapOperations.searching (ops : LdapOperations) (base filter : Text) (attrs : List Text) :
    Exchange (List LdapEntry) := ([.search base filter attrs], ops.search base filter attrs)

def LdapOperations.binding (ops : LdapOperations) (dn password : Text) : Exchange Unit :=
  ([.bind dn password], ops.bind dn password)

def escapeChar : Char → Text
  | '\\' => ['\\', '5', 'c']
  | '*' => ['\\', '2', 'a']
  | '(' => ['\\', '2', '8']
  | ')' => ['\\', '2', '9']
  | '\x00' => ['\\', '0', '0']
  | other => [other]

def escapeFilterValue (value : Text) : Text := value.flatMap escapeChar

def singleEntry : List LdapEntry → Except SecurityError (Option LdapEntry)
  | [] => .ok none
  | [first] => .ok (some first)
  | _ :: _ :: _ => .error (.verification "ambiguous directory search: more than one entry matched")

inductive AuthenticationRequest where
  | usernamePassword (username password : Text)
  | bearerToken (token : Text)

structure Authentication where
  principal : Text
  username : Text
  roles : List Text

structure LdapAuthenticationProvider where
  ops : LdapOperations
  userSearchBase : Text
  userSearchFilter : Text
  groupSearchBase : Option Text
  groupSearchFilter : Option Text
  groupRoleAttribute : Text
  rolePrefix : Text
  -- `str::to_uppercase`.
  toUppercase : Text → Text

def badCredentials : SecurityError := .verification "Bad credentials"

def userFilter (template username : Text) : Text :=
  fillHole '0' (escapeFilterValue username) template

def groupFilter (template userDn username : Text) : Text :=
  fillHole '1' (escapeFilterValue username)
    (fillHole '0' (escapeFilterValue userDn) template)

def LdapAuthenticationProvider.authoritiesFor (p : LdapAuthenticationProvider) (userDn username : Text) :
    Exchange (List Text) :=
  match p.groupSearchBase, p.groupSearchFilter with
  | some base, some filter =>
    (p.ops.searching base (groupFilter filter userDn username) [p.groupRoleAttribute]).andThen fun groups =>
      .done (.ok ((groups.filterMap fun g => g.first p.groupRoleAttribute).map fun name =>
        p.rolePrefix ++ p.toUppercase name))
  | _, _ => .done (.ok [])

def LdapAuthenticationProvider.authenticate (p : LdapAuthenticationProvider) :
    AuthenticationRequest → Exchange Authentication
  | .usernamePassword username password =>
    -- An empty password would be an anonymous bind.
    if password = [] then .done (.error badCredentials)
    else
      (p.ops.searching p.userSearchBase (userFilter p.userSearchFilter username) []).andThen fun entries =>
        match singleEntry entries with
        | .error e => .done (.error e)
        | .ok none => .done (.error badCredentials)
        | .ok (some entry) =>
          let (sent, bound) := p.ops.binding entry.dn password
          Exchange.andThen (sent, bound.mapError fun _ => badCredentials) fun _ =>
            (p.authoritiesFor entry.dn username).andThen fun roles =>
              .done (.ok { principal := entry.dn, username, roles })
  | .bearerToken _ => .done (.error (.verification "unsupported credential kind"))

def userMeaning (username value : Text) : List UInt8 :=
  octets (fun _ => utf8 username) (symbols (fun c => c = '0') value)

def groupMeaning (userDn username value : Text) : List UInt8 :=
  octets (fun index => utf8 (if index = '0' then userDn else username))
    (symbols (fun c => c = '0' || c = '1') value)

def secondHoles (value : Text) : Nat := holeCount (symbols (fun c => c = '1') value)

def NoNewHole (userDn value : Text) : Prop :=
  secondHoles (fillHole '0' (escapeFilterValue userDn) value) = secondHoles value

section Escaping

variable {text value : Text}

theorem escapeChar_encoded (c : Char) : Encoded (chars (escapeChar c)) := by
  unfold escapeChar
  split
  case h_6 other backslash star opening closing nul =>
    refine .plain ?_ .nil
    simp only [isPlain, Bool.and_eq_true, decide_eq_true_eq, ne_eq]
    exact ⟨⟨⟨⟨nul, opening⟩, closing⟩, star⟩, backslash⟩
  all_goals exact .escaped (by decide) (by decide) .nil

theorem escape_encoded (value : Text) : Encoded (chars (escapeFilterValue value)) := by
  induction value with
  | nil => exact .nil
  | cons c rest ih =>
    have shape : chars (escapeFilterValue (c :: rest)) = chars (escapeChar c) ++ chars (escapeFilterValue rest) := by
      simp [escapeFilterValue, chars]
    rw [shape]
    exact (escapeChar_encoded c).append ih

theorem octets_escapeChar (f : Char → List UInt8) (c : Char) :
    octets f (chars (escapeChar c)) = String.utf8EncodeChar c := by
  unfold escapeChar
  split
  case h_6 other backslash star opening closing nul =>
    have plain : isPlain c = true := by
      simp only [isPlain, Bool.and_eq_true, decide_eq_true_eq, ne_eq]
      exact ⟨⟨⟨⟨nul, opening⟩, closing⟩, star⟩, backslash⟩
    simp [chars, octets_plain plain]
  all_goals
    simp only [chars, List.map_cons, List.map_nil, octets_escaped, octets_nil]
    decide

theorem octets_escape (f : Char → List UInt8) (value : Text) :
    octets f (chars (escapeFilterValue value)) = utf8 value := by
  induction value with
  | nil => rfl
  | cons c rest ih =>
    have shape : chars (escapeFilterValue (c :: rest)) = chars (escapeChar c) ++ chars (escapeFilterValue rest) := by
      simp [escapeFilterValue, chars]
    rw [shape, octets_append (escapeChar_encoded c), octets_escapeChar, ih, utf8_cons]

theorem unescape_escape (value : Text) : unescape (escapeFilterValue value) = utf8 value :=
  octets_escape _ value

end Escaping

section Filled

variable {value : Text}

theorem userFilter_local (username : Text) : Local (fun template => userFilter template username) :=
  local_fillHole (by decide) _

theorem groupFilter_local (userDn username : Text) :
    Local (fun template => groupFilter template userDn username) :=
  (local_fillHole (by decide) _).comp (local_fillHole (by decide) _)

theorem braceless_zero : Braceless (fun c => c = '0') := by
  intro index admitted
  obtain rfl : index = '0' := by simpa using admitted
  decide

theorem braceless_one : Braceless (fun c => c = '1') := by
  intro index admitted
  obtain rfl : index = '1' := by simpa using admitted
  decide

theorem braceless_both : Braceless (fun c => c = '0' || c = '1') := by
  intro index admitted
  rcases (by simpa using admitted : index = '0' ∨ index = '1') with rfl | rfl <;> decide

theorem userFilter_value (username : Text) (encoded : Encoded (chars value)) :
    Encoded (chars (userFilter value username)) ∧
      unescape (userFilter value username) = userMeaning username value := by
  have read := encoded.symbols braceless_zero
  unfold userFilter userMeaning
  rw [fillHole_eq]
  refine ⟨read.spell fun _ => escape_encoded username, ?_⟩
  rw [unescape_spell read fun _ => escape_encoded username]
  simp only [unescape_escape]

def halfFilled (userDn value : Text) : List Symbol :=
  put (fun index => if index = '0' then chars (escapeFilterValue userDn) else [.hole index])
    (symbols (fun c => c = '0' || c = '1') value)

theorem spell_halfFilled (userDn value : Text) :
    spell literal (halfFilled userDn value) = fillHole '0' (escapeFilterValue userDn) value := by
  rw [halfFilled, spell_put, fillHole_eq,
    spell_symbols braceless_both (by simp : ∀ index, (decide (index = '0')) = true → _)]
  congr 1
  funext index
  by_cases zero : index = '0' <;> simp [zero]

theorem halfFilled_encoded (userDn : Text) (encoded : Encoded (chars value)) :
    Encoded (halfFilled userDn value) := by
  refine (encoded.symbols braceless_both).put fun index => ?_
  split
  next => exact escape_encoded userDn
  next => exact .hole index .nil

theorem groupMeaning_eq (userDn username : Text) (encoded : Encoded (chars value)) :
    groupMeaning userDn username value = octets (fun _ => utf8 username) (halfFilled userDn value) := by
  rw [halfFilled, octets_put (encoded.symbols braceless_both)]
  · unfold groupMeaning
    congr 1
    funext index
    by_cases zero : index = '0' <;> simp [zero, octets_escape]
  · intro index
    split
    next => exact escape_encoded userDn
    next => exact .hole index .nil

theorem holes_halfFilled (userDn value : Text) {index : Char} (inside : .hole index ∈ halfFilled userDn value) :
    index = '1' := by
  obtain ⟨part, among, filled⟩ := List.mem_flatMap.mp inside
  cases part with
  | char c => simp at filled
  | hole found =>
    have admitted := hole_of_symbols among
    simp only [decide_eq_true_eq, Bool.or_eq_true] at admitted
    by_cases zero : found = '0'
    · simp [zero, chars] at filled
    · simp only [zero, if_false, List.mem_singleton, Symbol.hole.injEq] at filled
      exact filled.trans (admitted.resolve_left zero)

theorem holeCount_halfFilled (userDn value : Text) : holeCount (halfFilled userDn value) = secondHoles value := by
  have counted := @holeCount_put (fun c => c = '1') _ (fun _ => escapeFilterValue userDn)
    braceless_both (by simp) value
  rw [secondHoles, ← counted, halfFilled, put_congr]
  intro index inside
  have admitted := hole_of_symbols inside
  simp only [decide_eq_true_eq, Bool.or_eq_true] at admitted
  rcases admitted with rfl | rfl <;> simp

-- Filling in both is as meant exactly when the DN brings about no further hole, or when that is filled
-- with its own text.
theorem groupFilter_value (userDn username : Text) (encoded : Encoded (chars value)) :
    Encoded (chars (groupFilter value userDn username)) ∧
      (unescape (groupFilter value userDn username) = groupMeaning userDn username value ↔
        NoNewHole userDn value ∨ username = literal '1') := by
  have half := halfFilled_encoded userDn encoded
  have only (index : Char) (inside : .hole index ∈ halfFilled userDn value) :
      decide (index = '1') = true := by simp [holes_halfFilled userDn value inside]
  obtain ⟨extra, finer⟩ := symbols_finer braceless_one (halfFilled userDn value) only
  rw [spell_halfFilled] at finer
  have counted := finer.holeCount
  rw [holeCount_halfFilled] at counted
  have read := half.finer finer
  have strayed := @octets_finer _ _ (fun _ => utf8 username) _ _ (by decide : isHex '1' = true) finer
    half fun found inside => by simpa using hole_of_symbols inside
  unfold groupFilter
  rw [fillHole_eq]
  refine ⟨read.spell fun _ => escape_encoded username, ?_⟩
  rw [unescape_spell read fun _ => escape_encoded username, groupMeaning_eq userDn username encoded]
  simp only [unescape_escape]
  have none : extra = 0 ↔ NoNewHole userDn value := by
    unfold NoNewHole secondHoles at *
    omega
  have text : octets (fun _ => utf8 username) (chars (literal '1')) = utf8 (literal '1') := by
    simp only [chars, literal, List.map_cons, List.map_nil]
    rw [octets_plain (by decide), octets_plain (by decide), octets_plain (by decide), utf8_cons, utf8_cons,
      utf8_cons, octets_nil]
    rfl
  rw [strayed.eq_iff, none, text, utf8_injective.eq_iff]

end Filled

def FilledExactly (template sent : Text) (meaning : Text → List UInt8) (fills : Text → Prop) : Prop :=
  ∀ filter, Parses template filter →
    ∃ tree, (∀ other, Parses sent other ↔ other = tree) ∧
      (tree.map unescape = filter.map meaning ↔ ∀ item ∈ filter.items,
        (∀ value ∈ item.values, fills value) ∧ ¬ item.Blank fun value => meaning value = [])

theorem userFilter_exact (template username : Text) :
    FilledExactly template (userFilter template username) (userMeaning username) (fun _ => True) := by
  intro filter parses
  obtain ⟨tree, one, exactly⟩ := @parses_replaced _ (userMeaning username) _ _ (userFilter_local username)
    (fun value encoded => (userFilter_value username encoded).1) parses
  refine ⟨tree, one, exactly.trans ?_⟩
  refine forall₂_congr fun item among => and_congr_left fun _ => ?_
  exact forall₂_congr fun value inside =>
    iff_true_intro (userFilter_value username ((parses.1 item among).1 value inside)).2

theorem groupFilter_exact (template userDn username : Text) :
    FilledExactly template (groupFilter template userDn username) (groupMeaning userDn username)
      (fun value => NoNewHole userDn value ∨ username = literal '1') := by
  intro filter parses
  obtain ⟨tree, one, exactly⟩ := @parses_replaced _ (groupMeaning userDn username) _ _
    (groupFilter_local userDn username)
    (fun value encoded => (groupFilter_value userDn username encoded).1) parses
  refine ⟨tree, one, exactly.trans ?_⟩
  refine forall₂_congr fun item among => and_congr_left fun _ => ?_
  exact forall₂_congr fun value inside =>
    (groupFilter_value userDn username ((parses.1 item among).1 value inside)).2

def Request.searched : Request → Option Text
  | .search _ filter _ => some filter
  | .bind _ _ => none

@[simp] theorem searched_search (base filter : Text) (attrs : List Text) (rest : List Request) :
    (Request.search base filter attrs :: rest).filterMap Request.searched =
      filter :: rest.filterMap Request.searched := rfl

@[simp] theorem searched_bind (dn password : Text) (rest : List Request) :
    (Request.bind dn password :: rest).filterMap Request.searched = rest.filterMap Request.searched := rfl

def LdapAuthenticationProvider.searches (p : LdapAuthenticationProvider) (request : AuthenticationRequest) :
    List Text :=
  (p.authenticate request).1.filterMap Request.searched

theorem authoritiesFor_searches (p : LdapAuthenticationProvider) (userDn username : Text) :
    (p.authoritiesFor userDn username).1.filterMap Request.searched = [] ∨
      ∃ template, p.groupSearchFilter = some template ∧
        (p.authoritiesFor userDn username).1.filterMap Request.searched =
          [groupFilter template userDn username] := by
  unfold LdapAuthenticationProvider.authoritiesFor
  split
  next base filter _ configured =>
    refine .inr ⟨filter, configured, ?_⟩
    unfold LdapOperations.searching
    cases p.ops.search base (groupFilter filter userDn username) [p.groupRoleAttribute] <;>
      simp [Exchange.done]
  next => exact .inl rfl

theorem searches_cases (p : LdapAuthenticationProvider) (username password : Text) :
    p.searches (.usernamePassword username password) = [] ∨
      p.searches (.usernamePassword username password) = [userFilter p.userSearchFilter username] ∨
      ∃ entry template, p.groupSearchFilter = some template ∧
        p.ops.search p.userSearchBase (userFilter p.userSearchFilter username) [] = .ok [entry] ∧
        p.searches (.usernamePassword username password) =
          [userFilter p.userSearchFilter username, groupFilter template entry.dn username] := by
  unfold LdapAuthenticationProvider.searches LdapAuthenticationProvider.authenticate
  by_cases empty : password = []
  · simp [empty, Exchange.done]
  · right
    simp only [empty, if_false, LdapOperations.searching, LdapOperations.binding]
    cases found : p.ops.search p.userSearchBase (userFilter p.userSearchFilter username) [] with
    | error e => simp
    | ok entries =>
      match entries with
      | [] => simp [singleEntry, Exchange.done]
      | _ :: _ :: _ => simp [singleEntry, Exchange.done]
      | [entry] =>
        cases bound : p.ops.bind entry.dn password with
        | error e => simp [singleEntry, Except.mapError, bound]
        | ok u =>
          rcases authoritiesFor_searches p entry.dn username with none | ⟨template, configured, one⟩
          · simp [singleEntry, Except.mapError, bound, none]
          · refine .inr ⟨entry, template, configured, rfl, ?_⟩
            simp [singleEntry, Except.mapError, bound, one]

theorem ldap_filters_exactly (p : LdapAuthenticationProvider) (username password : Text) :
    (p.searches (.usernamePassword username password)).length ≤ 2 ∧
      (∀ sent, (p.searches (.usernamePassword username password))[0]? = some sent →
        FilledExactly p.userSearchFilter sent (userMeaning username) (fun _ => True)) ∧
      ∀ sent, (p.searches (.usernamePassword username password))[1]? = some sent →
        ∃ entry template, p.groupSearchFilter = some template ∧
          p.ops.search p.userSearchBase (userFilter p.userSearchFilter username) [] = .ok [entry] ∧
          FilledExactly template sent (groupMeaning entry.dn username)
            (fun value => NoNewHole entry.dn value ∨ username = literal '1') := by
  rcases searches_cases p username password with none | one | ⟨entry, template, configured, found, both⟩
  · simp [none]
  · simp [one, userFilter_exact]
  · simp only [both, List.length_cons, List.length_nil, List.getElem?_cons_zero, List.getElem?_cons_succ,
      Option.some.injEq]
    refine ⟨by omega, ?_, ?_⟩
    · rintro sent rfl
      exact userFilter_exact _ _
    · rintro sent rfl
      exact ⟨entry, template, configured, found, groupFilter_exact _ _ _⟩

def member : Attribute where
  text := ['m', 'e', 'm', 'b', 'e', 'r']
  present := by decide
  valid := List.all_eq_true.mp (by decide)

theorem dn_filled_again :
    ∃ filter, Parses "(member=\x7b0\x7d)".toList filter ∧
      ¬ ∃ tree, Parses (groupFilter "(member=\x7b0\x7d)".toList "cn=\x7b1\x7d".toList "eve".toList) tree ∧
        tree.map unescape = filter.map (groupMeaning "cn=\x7b1\x7d".toList "eve".toList) := by
  have parses : Parses "(member=\x7b0\x7d)".toList (.item (.simple member .equal "\x7b0\x7d".toList)) := by
    refine ⟨?_, by simp [Filter.render, Item.render, Item.head, Item.parts, Item.values, joined, member,
      FilterType.mark]⟩
    intro item inside
    obtain rfl := List.mem_singleton.mp inside
    refine ⟨fun value written => ?_, fun blank => blank⟩
    obtain rfl := List.mem_singleton.mp written
    exact .plain (by decide) (.plain (by decide) (.plain (by decide) .nil))
  refine ⟨_, parses, ?_⟩
  rintro ⟨other, sent, same⟩
  obtain ⟨tree, one, exactly⟩ := groupFilter_exact _ "cn=\x7b1\x7d".toList "eve".toList _ parses
  obtain rfl := (one other).mp sent
  have fills := (exactly.mp same _ (List.mem_singleton.mpr rfl)).1 _ (List.mem_singleton.mpr rfl)
  rcases fills with counted | equal
  · unfold NoNewHole at counted
    rw [fillHole_eq] at counted
    revert counted
    decide
  · revert equal
    decide

end Firefly.Security.Ldap
