import Firefly.Shared.Text
import Firefly.Validators.Identifiers

set_option autoImplicit false

namespace Firefly.Validators

open Text (trim rsplitOnce)

def isControl (c : Char) : Bool := c.toNat < 32 || (127 ≤ c.toNat && c.toNat < 160)

def isAtext (c : Char) : Bool :=
  c.isAlphanum || "!#$%&'*+-/=?^_`\x7b|\x7d~".toList.contains c || 128 ≤ c.toNat

def isDotAtom (s : Text) : Bool :=
  !s.isEmpty && (s.splitOn '.').all fun label => !label.isEmpty && label.all isAtext

def stripSuffix (c : Char) (s : Text) : Option Text := if s.getLast? = some c then some s.dropLast else none

def quotedStringEnd : Bool → Text → Option Text
  | _, [] => none
  | true, _ :: rest => quotedStringEnd false rest
  | false, c :: rest =>
    if c = '\\' then quotedStringEnd true rest
    else if c = '"' then some rest
    else quotedStringEnd false rest

def validateEmailDomain (domain : Text) : Except String Unit :=
  match domain with
  | '[' :: rest =>
    match stripSuffix ']' rest with
    | none => .error "malformed domain literal"
    | some inner =>
      if inner.isEmpty ∨ inner.any fun c => c = '[' || c = ']' || c = '\\' || isControl c then
        .error "malformed domain literal"
      else .ok ()
  | _ => if ¬ isDotAtom domain then .error "malformed domain" else .ok ()

def parseAddrSpec (addr : Text) : Except String Unit :=
  match addr with
  | '"' :: rest =>
    match quotedStringEnd false rest with
    | none => .error "unterminated quoted string in local part"
    | some ('@' :: domain) => validateEmailDomain domain
    | some _ => .error "missing '@' after quoted local part"
  | _ =>
    match rsplitOnce '@' addr with
    | none => .error "missing '@' or angle-addr"
    | some (front, domain) =>
      if ¬ isDotAtom front then .error "malformed local part" else validateEmailDomain domain

def angleAddr (trimmed : Text) : Except String Text :=
  match stripSuffix '>' trimmed with
  | some stripped =>
    match rsplitOnce '<' stripped with
    | some (_, addr) => .ok addr
    | none => .error "email: unmatched angle bracket"
  | none => .ok trimmed

def validateEmail (s : Text) : Except String Unit :=
  let trimmed := trim s
  if trimmed.isEmpty then .error "email: empty address"
  else
    match angleAddr trimmed with
    | .error reason => .error reason
    | .ok addr =>
      match parseAddrSpec addr with
      | .ok () => .ok ()
      | .error reason => .error ("email: " ++ reason)

end Firefly.Validators

namespace Firefly.Validators

open Text (trim rsplitOnce rsplitOnce_append rsplitOnce_joins exists_last append_cons_cases first_unique
  isWhitespace)

def DotAtom (s : Text) : Prop := ∃ labels : List Text, labels ≠ [] ∧
  (∀ label ∈ labels, label ≠ [] ∧ ∀ c ∈ label, isAtext c = true) ∧ s = ['.'].intercalate labels

inductive Quoted (allowed : Char → Bool) : Text → Prop
  | nil : Quoted allowed []
  | plain (c : Char) (rest : Text) : c ≠ '"' → c ≠ '\\' → allowed c = true → Quoted allowed rest →
      Quoted allowed (c :: rest)
  | escaped (c : Char) (rest : Text) : allowed c = true → Quoted allowed rest →
      Quoted allowed ('\\' :: c :: rest)

abbrev Closed : Text → Prop := Quoted fun _ => true

def LiteralText (inner : Text) : Prop :=
  inner ≠ [] ∧ ∀ c ∈ inner, c ≠ '[' ∧ c ≠ ']' ∧ c ≠ '\\' ∧ isControl c = false

inductive Domain : Text → Prop
  | dotAtom {domain : Text} : DotAtom domain → Domain domain
  | literal {inner : Text} : LiteralText inner → Domain ('[' :: (inner ++ [']']))

inductive AddrSpec : Text → Prop
  | dotAtom {front domain : Text} : DotAtom front → Domain domain → AddrSpec (front ++ '@' :: domain)
  | quoted {body domain : Text} : Quoted (fun c => !isControl c) body → Domain domain →
      AddrSpec ('"' :: (body ++ '"' :: '@' :: domain))

inductive AngleFree : Text → Prop
  | nil : AngleFree []
  | plain (c : Char) (rest : Text) : c ≠ '<' → c ≠ '>' → AngleFree rest → AngleFree (c :: rest)
  | quoted (body rest : Text) : Closed body → AngleFree rest → AngleFree ('"' :: (body ++ '"' :: rest))

inductive Misread : Text → Prop
  | control {body domain : Text} : Closed body → (∃ c ∈ body, isControl c = true) → Domain domain →
      Misread ('"' :: (body ++ '"' :: '@' :: domain))
  | literal {front inner : Text} : DotAtom front → LiteralText inner → '@' ∈ inner →
      Misread (front ++ '@' :: '[' :: (inner ++ [']']))

section DotAtoms

variable {s domain inner : Text} {c : Char}

theorem isDotAtom_iff (s : Text) : isDotAtom s = true ↔ DotAtom s := by
  simp only [isDotAtom, Bool.and_eq_true, Bool.not_eq_true', List.isEmpty_eq_false_iff, List.all_eq_true]
  constructor
  · rintro ⟨-, labels⟩
    exact ⟨s.splitOn '.', List.splitOn_ne_nil _ _, labels, (List.intercalate_splitOn '.').symm⟩
  · rintro ⟨labels, present, atoms, rfl⟩
    have undotted : ∀ label ∈ labels, '.' ∉ label := fun label among inside =>
      absurd ((atoms label among).2 '.' inside) (by decide +kernel)
    rw [List.splitOn_intercalate '.' undotted present]
    refine ⟨?_, atoms⟩
    obtain ⟨first, rest, rfl⟩ := List.exists_cons_of_ne_nil present
    have filled := (atoms first (by simp)).1
    cases rest with
    | nil => simpa using filled
    | cons => simp [List.intercalate, filled]

theorem dotAtom_chars (atom : DotAtom s) : ∀ c ∈ s, isAtext c = true ∨ c = '.' := by
  obtain ⟨labels, -, atoms, rfl⟩ := atom
  induction labels with
  | nil => simp
  | cons label rest ih =>
    have own := (atoms label (by simp)).2
    cases rest with
    | nil => simpa using fun c among => .inl (own c among)
    | cons next rest =>
      rw [List.intercalate_cons_cons]
      intro c among
      simp only [List.mem_append, List.mem_singleton] at among
      rcases among with (inside | rfl) | later
      · exact .inl (own c inside)
      · exact .inr rfl
      · exact ih (fun label among => atoms label (List.mem_cons_of_mem _ among)) c later

theorem isAtext_divider : ∀ d ∈ ['"', '@', '<', '>', '[', ']'], isAtext d = false ∧ d ≠ '.' := by
  simp [isAtext]

theorem dotAtom_foreign (atom : DotAtom s) (divider : c ∈ ['"', '@', '<', '>', '[', ']']) : c ∉ s := by
  obtain ⟨foreign, undotted⟩ := isAtext_divider c divider
  intro among
  rcases dotAtom_chars atom c among with atext | dot
  · simp [foreign] at atext
  · exact undotted dot

theorem dotAtom_ne_nil (atom : DotAtom s) : s ≠ [] := by
  have filled := (isDotAtom_iff s).mpr atom
  rintro rfl
  simp [isDotAtom] at filled

end DotAtoms

section Domains

variable {s domain inner : Text} {c : Char}

theorem stripSuffix_append (s : Text) (c : Char) : stripSuffix c (s ++ [c]) = some s := by
  simp [stripSuffix]

theorem stripSuffix_some {inner : Text} (stripped : stripSuffix c s = some inner) : s = inner ++ [c] := by
  rw [stripSuffix] at stripped
  split at stripped
  · rename_i last
    obtain ⟨front, rfl⟩ := List.getLast?_eq_some_iff.mp last
    obtain rfl := Option.some.inj stripped
    simp
  · cases stripped

theorem literalText_iff (inner : Text) : LiteralText inner ↔
    ¬ (inner.isEmpty ∨ inner.any fun c => c = '[' || c = ']' || c = '\\' || isControl c) := by
  simp only [LiteralText, List.isEmpty_iff, List.any_eq_true, Bool.or_eq_true, decide_eq_true_eq, not_or,
    not_exists, not_and, Bool.not_eq_true]
  exact and_congr_right fun _ => forall_congr' fun c => by tauto

theorem domain_ok_iff (domain : Text) : validateEmailDomain domain = .ok () ↔ Domain domain := by
  unfold validateEmailDomain
  split
  · rename_i rest
    constructor
    · intro accepted
      split at accepted
      · cases accepted
      · rename_i inner stripped
        split at accepted
        · cases accepted
        · rename_i fine
          rw [stripSuffix_some stripped]
          exact .literal ((literalText_iff inner).mpr fine)
    · generalize bracketed : '[' :: rest = domain
      rintro (atom | @⟨inner, literal⟩)
      · exact absurd (by simp [← bracketed]) (dotAtom_foreign atom (c := '[') (by simp))
      · obtain ⟨-, rfl⟩ := List.cons.inj bracketed
        rw [stripSuffix_append]
        simp only
        rw [if_neg ((literalText_iff inner).mp literal)]
  · rename_i unbracketed
    constructor
    · intro accepted
      split at accepted
      · cases accepted
      · rename_i atom
        exact .dotAtom ((isDotAtom_iff domain).mp (not_not.mp atom))
    · rintro (atom | @⟨inner, literal⟩)
      · rw [if_neg (not_not.mpr ((isDotAtom_iff domain).mpr atom))]
      · exact absurd rfl (unbracketed (inner ++ [']']))

theorem domain_end (front : Text) (literal : LiteralText inner)
    (ends : front ++ domain = inner ++ [']']) : ¬ Domain domain := by
  intro valid
  have closing : domain.getLast? = some ']' ∨ domain = [] := by
    rcases List.eq_nil_or_concat domain with rfl | ⟨rest, last, rfl⟩
    · exact .inr rfl
    · rw [List.concat_eq_append, ← List.append_assoc] at ends
      have same := (List.append_inj' ends rfl).2
      rw [List.concat_eq_append, same]
      simp
  cases valid with
  | dotAtom atom =>
    rcases closing with last | empty
    · exact dotAtom_foreign atom (by simp) (List.mem_of_getLast? last)
    · exact dotAtom_ne_nil atom empty
  | literal other =>
    have opening : '[' ∈ inner ++ [']'] := ends ▸ List.mem_append_right _ (List.mem_cons_self ..)
    rcases List.mem_append.mp opening with inside | last
    · exact (literal.2 _ inside).1 rfl
    · simp at last

end Domains

section QuotedStrings

variable {allowed : Char → Bool} {s body other rest after : Text} {c : Char}

theorem quotedStringEnd_closed (closed : Closed body) (rest : Text) :
    quotedStringEnd false (body ++ '"' :: rest) = some rest := by
  induction closed with
  | nil => simp [quotedStringEnd]
  | plain c body quote backslash _ _ ih => simp [quotedStringEnd, quote, backslash, ih]
  | escaped c body _ _ ih => simp [quotedStringEnd, ih]

theorem closed_of_quotedStringEnd : ∀ {s : Text}, quotedStringEnd false s = some rest →
    ∃ body, Closed body ∧ s = body ++ '"' :: rest
  | [], found => by simp [quotedStringEnd] at found
  | [c], found => by
    rw [quotedStringEnd] at found
    split at found
    · simp [quotedStringEnd] at found
    · split at found
      · rename_i quote
        obtain rfl := Option.some.inj found
        exact ⟨[], .nil, by rw [quote]; rfl⟩
      · simp [quotedStringEnd] at found
  | c :: d :: s, found => by
    rw [quotedStringEnd] at found
    split at found
    · rename_i backslash
      rw [quotedStringEnd] at found
      obtain ⟨body, closed, rfl⟩ := closed_of_quotedStringEnd found
      exact ⟨'\\' :: d :: body, .escaped d body rfl closed, by rw [backslash]; rfl⟩
    · rename_i backslash
      split at found
      · rename_i quote
        obtain rfl := Option.some.inj found
        exact ⟨[], .nil, by rw [quote]; rfl⟩
      · rename_i quote
        obtain ⟨body, closed, split⟩ := closed_of_quotedStringEnd found
        exact ⟨c :: body, .plain c body quote backslash rfl closed, by rw [split]; rfl⟩

theorem Quoted.closed (quoted : Quoted allowed body) : Closed body := by
  induction quoted with
  | nil => exact .nil
  | plain c rest quote backslash _ _ ih => exact .plain c rest quote backslash rfl ih
  | escaped c rest _ _ ih => exact .escaped c rest rfl ih

theorem closed_quoted_iff (allows : allowed '\\' = true) (closed : Closed body) :
    Quoted allowed body ↔ ∀ c ∈ body, allowed c = true := by
  constructor
  · intro quoted
    clear closed
    induction quoted with
    | nil => simp
    | plain c rest _ _ fine _ ih => simpa [fine] using ih
    | escaped c rest fine _ ih => simpa [fine, allows] using ih
  · intro fine
    induction closed with
    | nil => exact .nil
    | plain c rest quote backslash _ _ ih =>
      exact .plain c rest quote backslash (fine c (by simp)) (ih fun d among => fine d (by simp [among]))
    | escaped c rest _ _ ih =>
      exact .escaped c rest (fine c (by simp)) (ih fun d among => fine d (by simp [among]))

theorem closed_unique (first : Closed body) (second : Closed other)
    (same : body ++ '"' :: rest = other ++ '"' :: after) : body = other ∧ rest = after := by
  have found := quotedStringEnd_closed first rest
  rw [same, quotedStringEnd_closed second after] at found
  obtain rfl := Option.some.inj found
  exact ⟨List.append_cancel_right same, rfl⟩

theorem not_closed_quote {front : Text} (plain : c ≠ '\\') : ¬ Closed (front ++ c :: '"' :: rest) := by
  generalize whole : front ++ c :: '"' :: rest = body
  intro closed
  induction closed generalizing front with
  | nil => simp at whole
  | plain d body _ _ _ tail ih =>
    cases front with
    | nil =>
      obtain ⟨-, rfl⟩ := List.cons.inj whole
      cases tail with
      | plain _ _ quote => exact quote rfl
    | cons _ front => exact ih (List.cons.inj whole).2
  | escaped d body _ tail ih =>
    match front with
    | [] => exact plain (List.cons.inj whole).1
    | [_] =>
      obtain ⟨-, rfl⟩ := List.cons.inj (List.cons.inj whole).2
      cases tail with
      | plain _ _ quote => exact quote rfl
    | _ :: _ :: front => exact ih (List.cons.inj (List.cons.inj whole).2).2

end QuotedStrings

section Parsing

variable {a front domain body inner : Text}

theorem parse_plain (unquoted : a.head? ≠ some '"') : parseAddrSpec a =
    match rsplitOnce '@' a with
    | none => .error "missing '@' or angle-addr"
    | some (front, domain) =>
      if ¬ isDotAtom front then .error "malformed local part" else validateEmailDomain domain := by
  unfold parseAddrSpec
  split
  · simp at unquoted
  · rfl

theorem head_dotAtom (atom : DotAtom front) (rest : Text) : (front ++ rest).head? ≠ some '"' := by
  have absent := dotAtom_foreign atom (c := '"') (by simp)
  cases front with
  | nil => exact absurd rfl (dotAtom_ne_nil atom)
  | cons c front =>
    intro first
    rw [List.cons_append, List.head?_cons] at first
    exact absent (Option.some.inj first ▸ List.mem_cons_self ..)

theorem parse_ok_iff (a : Text) : parseAddrSpec a = .ok () ↔
    (∃ front domain, a = front ++ '@' :: domain ∧ DotAtom front ∧ Domain domain ∧ '@' ∉ domain) ∨
    ∃ body domain, a = '"' :: (body ++ '"' :: '@' :: domain) ∧ Closed body ∧ Domain domain := by
  by_cases quoted : a.head? = some '"'
  · obtain ⟨rest, rfl⟩ := List.head?_eq_some_iff.mp quoted
    constructor
    · intro accepted
      rw [parseAddrSpec] at accepted
      split at accepted
      · cases accepted
      · rename_i domain found
        obtain ⟨body, closed, rfl⟩ := closed_of_quotedStringEnd found
        exact .inr ⟨body, domain, rfl, closed, (domain_ok_iff domain).mp accepted⟩
      · cases accepted
    · rintro (⟨front, domain, split, atom, -, -⟩ | ⟨body, domain, split, closed, valid⟩)
      · exact absurd (split ▸ quoted) (head_dotAtom atom _)
      · obtain ⟨-, rfl⟩ := List.cons.inj split
        rw [parseAddrSpec, quotedStringEnd_closed closed]
        exact (domain_ok_iff domain).mpr valid
  · rw [parse_plain quoted]
    constructor
    · intro accepted
      split at accepted
      · cases accepted
      · rename_i front domain split
        split at accepted
        · cases accepted
        · rename_i atom
          obtain ⟨joined, last⟩ := rsplitOnce_joins split
          exact .inl ⟨front, domain, joined, (isDotAtom_iff front).mp (not_not.mp atom),
            (domain_ok_iff domain).mp accepted, last⟩
    · rintro (⟨front, domain, rfl, atom, valid, last⟩ | ⟨body, domain, rfl, -, -⟩)
      · rw [rsplitOnce_append last]
        simp only
        rw [if_neg (not_not.mpr ((isDotAtom_iff front).mpr atom))]
        exact (domain_ok_iff domain).mpr valid
      · exact absurd rfl quoted

theorem misread_wrong (misread : Misread a) : ¬ (parseAddrSpec a = .ok () ↔ AddrSpec a) := by
  intro agree
  cases misread with
  | @control body domain closed controls valid =>
    have spec := agree.mp ((parse_ok_iff _).mpr (.inr ⟨body, domain, rfl, closed, valid⟩))
    generalize whole : '"' :: (body ++ '"' :: '@' :: domain) = a at spec
    cases spec with
    | dotAtom atom => exact head_dotAtom atom _ (by rw [← whole]; rfl)
    | quoted quoted =>
      obtain ⟨rfl, -⟩ := closed_unique closed quoted.closed (List.cons.inj whole).2
      obtain ⟨c, among, control⟩ := controls
      have fine := (closed_quoted_iff (by rfl) closed).mp quoted c among
      simp [control] at fine
  | @literal front inner atom literal inside =>
    rcases (parse_ok_iff _).mp (agree.mpr (.dotAtom atom (.literal literal))) with
      ⟨other, domain, split, atom', -, last⟩ | ⟨body, domain, split, -, -⟩
    · have early := dotAtom_foreign atom (c := '@') (by simp)
      have early' := dotAtom_foreign atom' (c := '@') (by simp)
      obtain ⟨-, same⟩ := first_unique early early' split
      exact last (same ▸ List.mem_cons_of_mem _ (List.mem_append_left _ inside))
    · exact head_dotAtom atom _ (by rw [split]; rfl)

theorem parse_exactly (a : Text) : (parseAddrSpec a = .ok () ↔ AddrSpec a) ↔ ¬ Misread a := by
  refine ⟨fun agree misread => misread_wrong misread agree, fun clear => ?_⟩
  rw [parse_ok_iff]
  constructor
  · rintro (⟨front, domain, rfl, atom, valid, -⟩ | ⟨body, domain, rfl, closed, valid⟩)
    · exact .dotAtom atom valid
    · refine .quoted ((closed_quoted_iff (by rfl) closed).mpr fun c among => ?_) valid
      cases control : isControl c with
      | false => rfl
      | true => exact absurd (.control closed ⟨c, among, control⟩ valid) clear
  · intro spec
    cases spec with
    | @dotAtom front domain atom valid =>
      refine .inl ⟨front, domain, rfl, atom, valid, fun inside => ?_⟩
      cases valid with
      | dotAtom plain => exact dotAtom_foreign plain (by simp) inside
      | @literal inner literal =>
        have within : '@' ∈ inner := by simpa using inside
        exact clear (.literal atom literal within)
    | @quoted body domain quoted valid => exact .inr ⟨body, domain, rfl, quoted.closed, valid⟩

end Parsing

section AngleBrackets

variable {a front tail domain body : Text} {c : Char}

theorem angleFree_last (free : AngleFree a) : a.getLast? ≠ some '>' := by
  induction free with
  | nil => simp
  | plain c rest _ closing _ ih =>
    cases rest with
    | nil => simpa using closing
    | cons d rest => rwa [List.getLast?_cons_cons]
  | quoted body rest _ _ ih =>
    cases rest with
    | nil => simp [List.getLast?_cons, List.getLast?_append]
    | cons d rest =>
      have split : '"' :: (body ++ '"' :: d :: rest) = '"' :: (body ++ ['"']) ++ d :: rest := by simp
      rwa [split, List.getLast?_append_of_ne_nil _ (by simp)]

theorem email_bare (trimmed : trim a = a) (bare : a.getLast? ≠ some '>') :
    validateEmail a = .ok () ↔ parseAddrSpec a = .ok () := by
  have whole : angleAddr a = .ok a := by simp [angleAddr, stripSuffix, bare]
  rw [validateEmail, trimmed, whole]
  by_cases empty : a.isEmpty
  · obtain rfl := List.isEmpty_iff.mp empty
    exact iff_of_false (by simp) (by decide)
  · rw [if_neg empty]
    simp only
    cases parseAddrSpec a with
    | ok => simp
    | error => simp

-- Only the beginning of the display name is trimmed.
theorem email_angle (name tail : Text) (last : '<' ∉ tail) :
    validateEmail (name ++ '<' :: (tail ++ ['>'])) = .ok () ↔ parseAddrSpec tail = .ok () := by
  obtain ⟨kept, trimmed⟩ : ∃ kept,
      trim (name ++ '<' :: (tail ++ ['>'])) = kept ++ '<' :: tail ++ ['>'] := by
    have dark : ¬ isWhitespace '>' = true := by decide
    have opening : ('<' :: (tail ++ ['>'])).dropWhile isWhitespace = '<' :: (tail ++ ['>']) :=
      List.dropWhile_cons_of_neg (by decide)
    rw [Text.trim, List.dropWhile_append, opening]
    split
    · refine ⟨[], ?_⟩
      rw [← List.cons_append, List.rdropWhile_concat_neg _ _ _ dark]
      rfl
    · refine ⟨name.dropWhile isWhitespace, ?_⟩
      rw [← List.cons_append, ← List.append_assoc, List.rdropWhile_concat_neg _ _ _ dark]
  have inner : angleAddr (kept ++ '<' :: tail ++ ['>']) = .ok tail := by
    rw [angleAddr, stripSuffix_append]
    simp only
    rw [rsplitOnce_append last]
  rw [validateEmail, trimmed, if_neg (by simp), inner]
  simp only
  cases parseAddrSpec tail with
  | ok => simp
  | error => simp

theorem domain_divided (divider : c ∈ ['"', '<']) (valid : Domain (front ++ c :: tail)) :
    ∃ inner within, LiteralText inner ∧ within ++ c :: tail = inner ++ [']'] := by
  generalize whole : front ++ c :: tail = domain at valid
  cases valid with
  | dotAtom atom =>
    refine absurd ?_ (dotAtom_foreign atom (c := c) (by simp at divider ⊢; tauto))
    simp [← whole]
  | @literal inner literal =>
    cases front with
    | nil =>
      obtain ⟨rfl, -⟩ := List.cons.inj whole
      simp at divider
    | cons d front => exact ⟨inner, front, literal, (List.cons.inj whole).2⟩

theorem literal_tail {inner : Text} (front : Text) (literal : LiteralText inner)
    (ends : front ++ tail = inner ++ [']']) :
    parseAddrSpec tail ≠ .ok () := by
  intro accepted
  rcases (parse_ok_iff tail).mp accepted with
    ⟨other, domain, rfl, -, valid, -⟩ | ⟨body, domain, rfl, -, valid⟩
  · exact domain_end (front ++ other ++ ['@']) literal (by simpa using ends) valid
  · exact domain_end (front ++ '"' :: (body ++ ['"', '@'])) literal (by simpa using ends) valid

theorem quoted_tail (closed : Closed (front ++ '<' :: tail)) (valid : Domain domain) :
    parseAddrSpec (tail ++ '"' :: '@' :: domain) ≠ .ok () := by
  intro accepted
  rcases (parse_ok_iff _).mp accepted with
    ⟨other, domain', split, atom, -, last⟩ | ⟨body, domain', split, -, valid'⟩
  · have unquoted := dotAtom_foreign atom (c := '"') (by simp)
    rcases append_cons_cases (by decide) split with ⟨between, rfl, -⟩ | ⟨between, -, rfl⟩
    · simp at unquoted
    · simp at last
  · cases tail with
    | cons c tail =>
      obtain ⟨rfl, -⟩ := List.cons.inj split
      exact not_closed_quote (by decide) closed
    | nil =>
      have split := (List.cons.inj split).2
      cases body with
      | nil => simp at split
      | cons c body =>
        obtain ⟨-, rfl⟩ := List.cons.inj split
        obtain ⟨inner, within, literal, ends⟩ := domain_divided (by simp) valid
        exact domain_end (within ++ ['"', '@']) literal (by simpa using ends) valid'

theorem angle_tail (spec : AddrSpec (front ++ '<' :: tail)) : parseAddrSpec tail ≠ .ok () := by
  have behind : ∀ {before : Text}, Domain (before ++ '<' :: tail) → parseAddrSpec tail ≠ .ok () := by
    intro before valid
    obtain ⟨inner, within, literal, ends⟩ := domain_divided (by simp) valid
    exact literal_tail (within ++ ['<']) literal (by simpa using ends)
  generalize whole : front ++ '<' :: tail = a at spec
  cases spec with
  | dotAtom atom valid =>
    have unbracketed := dotAtom_foreign atom (c := '<') (by simp)
    rcases append_cons_cases (by decide) whole with ⟨between, rfl, -⟩ | ⟨between, -, rfl⟩
    · simp at unbracketed
    · exact behind valid
  | quoted quoted valid =>
    cases front with
    | nil => simp at whole
    | cons c front =>
      rcases append_cons_cases (by decide) (List.cons.inj whole).2 with
        ⟨between, rfl, rfl⟩ | ⟨between, rfl, rest⟩
      · exact quoted_tail quoted.closed valid
      · cases between with
        | nil => simp at rest
        | cons _ between =>
          obtain ⟨-, rfl⟩ := List.cons.inj rest
          exact behind valid

end AngleBrackets

theorem email_exactly (a : Text) (trimmed : trim a = a) (free : AngleFree a) :
    ((validateEmail a = .ok () ↔ AddrSpec a) ∧
      (AddrSpec a → ∀ name : Text, (∀ c ∈ name, isAtext c = true ∨ c = ' ') →
        validateEmail (name ++ ' ' :: '<' :: (a ++ ['>'])) = .ok ())) ↔
    ¬ Misread a ∧ (AddrSpec a → '<' ∉ a) := by
  rw [email_bare trimmed (angleFree_last free), parse_exactly]
  refine and_congr_right fun clear => ?_
  have agree := (parse_exactly a).mpr clear
  constructor
  · intro named spec inside
    obtain ⟨front, tail, rfl, last⟩ := exists_last inside
    have accepted := named spec [] (by simp)
    have split : [] ++ ' ' :: '<' :: (front ++ '<' :: tail ++ ['>']) =
        ' ' :: '<' :: front ++ '<' :: (tail ++ ['>']) := by simp
    rw [split, email_angle _ tail last] at accepted
    exact angle_tail spec accepted
  · intro plain spec name _
    have split : name ++ ' ' :: '<' :: (a ++ ['>']) = name ++ [' '] ++ '<' :: (a ++ ['>']) := by simp
    rw [split, email_angle _ a (plain spec)]
    exact agree.mpr spec

theorem angleFree_of_absent {a : Text} (left : '<' ∉ a) (right : '>' ∉ a) : AngleFree a := by
  induction a with
  | nil => exact .nil
  | cons c rest ih =>
    simp only [List.mem_cons, not_or] at left right
    exact .plain c rest (Ne.symm left.1) (Ne.symm right.1) (ih left.2 right.2)

theorem alice_read :
    (validateEmail "alice@example.com".toList = .ok () ↔ AddrSpec "alice@example.com".toList) ∧
      (AddrSpec "alice@example.com".toList → ∀ name : Text, (∀ c ∈ name, isAtext c = true ∨ c = ' ') →
        validateEmail (name ++ ' ' :: '<' :: ("alice@example.com".toList ++ ['>'])) = .ok ()) := by
  have spec : AddrSpec ("alice".toList ++ '@' :: "example.com".toList) :=
    .dotAtom ((isDotAtom_iff _).mp (by decide +kernel)) (.dotAtom ((isDotAtom_iff _).mp (by decide +kernel)))
  have read : parseAddrSpec ("alice".toList ++ '@' :: "example.com".toList) = .ok () := by decide +kernel
  exact (email_exactly "alice@example.com".toList (by decide +kernel)
    (angleFree_of_absent (by decide +kernel) (by decide +kernel))).mpr
      ⟨(parse_exactly _).mp (iff_of_true read spec), fun _ => by decide +kernel⟩

theorem line_break_accepted : ∃ a : Text, trim a = a ∧ AngleFree a ∧
    validateEmail a = .ok () ∧ ¬ AddrSpec a := by
  have closed : Closed ['\r', '\n'] :=
    .plain _ _ (by decide) (by decide) rfl (.plain _ _ (by decide) (by decide) rfl .nil)
  have misread : Misread ('"' :: (['\r', '\n'] ++ '"' :: '@' :: ['x'])) :=
    .control closed ⟨'\r', by simp, by rfl⟩ (.dotAtom ((isDotAtom_iff _).mp (by decide +kernel)))
  have read : parseAddrSpec ('"' :: (['\r', '\n'] ++ '"' :: '@' :: ['x'])) = .ok () := by decide +kernel
  refine ⟨_, ?_, ?_, ?_, fun spec => misread_wrong misread (iff_of_true read spec)⟩
  · decide +kernel
  · exact angleFree_of_absent (by decide +kernel) (by decide +kernel)
  · decide +kernel

end Firefly.Validators
