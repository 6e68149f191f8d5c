import Firefly.Security.RoleHierarchy
import Firefly.Shared.Text

set_option autoImplicit false

namespace Firefly.Security

open Text Worklist

section Trimming

variable {text front back before between after : List Char}

theorem trim_surround (trimmed : trim text = text) (left : ∀ c ∈ before, isWhitespace c = true)
    (right : ∀ c ∈ after, isWhitespace c = true) : trim (before ++ text ++ after) = text := by
  have mirrored : ∀ c ∈ after.reverse, isWhitespace c = true := fun c among =>
    right c (List.mem_reverse.mp among)
  have backwards : ∀ kept : List Char,
      (kept ++ after).rdropWhile isWhitespace = kept.rdropWhile isWhitespace := fun kept => by
    rw [List.rdropWhile, List.reverse_append, List.dropWhile_append_of_pos mirrored]
    rfl
  rw [trim, List.append_assoc, List.dropWhile_append_of_pos left]
  cases text with
  | nil =>
    have all : after.dropWhile isWhitespace = [] := List.dropWhile_eq_nil_iff.mpr right
    rw [List.nil_append, all]
    rfl
  | cons c rest =>
    have dark : ¬ isWhitespace c = true := by simp [trim_head trimmed]
    rw [List.cons_append, List.dropWhile_cons_of_neg dark, ← List.cons_append, backwards]
    rw [trim, List.dropWhile_cons_of_neg dark] at trimmed
    exact trimmed

theorem trim_between (first : trim front = front) (present : front ≠ []) (last : trim back = back)
    (filled : back ≠ []) : trim (front ++ between ++ back) = front ++ between ++ back := by
  obtain ⟨c, rest, rfl⟩ := List.exists_cons_of_ne_nil present
  obtain ⟨body, d, rfl⟩ := (List.eq_nil_or_concat back).resolve_left filled
  have dark : ¬ isWhitespace c = true := by simp [trim_head first]
  have ends : ¬ isWhitespace d = true := by
    rw [List.concat_eq_append] at last
    have shown := trim_last (show trim (body ++ [d]) ≠ [] by simp [last])
    simpa [last] using shown
  rw [List.concat_eq_append, ← List.append_assoc, trim, List.cons_append, List.cons_append,
    List.cons_append, List.dropWhile_cons_of_neg dark, ← List.cons_append,
    List.rdropWhile_concat_neg _ _ _ ends]

theorem trim_blank (blank : ∀ c ∈ text, isWhitespace c = true) : trim text = [] := by
  have surrounded : trim (text ++ [] ++ []) = [] := trim_surround rfl blank (by simp)
  simpa using surrounded

end Trimming

namespace RoleHierarchy

def parseLine (raw : List Char) : Option (String × String) :=
  match splitOnce (trim raw) with
  | none => none
  | some (higher, lower) =>
    if trim higher ≠ [] ∧ trim lower ≠ [] then
      some (String.ofList (trim higher), String.ofList (trim lower))
    else none

structure RoleName (name : String) : Prop where
  present : name.toList ≠ []
  trimmed : trim name.toList = name.toList
  plain : ∀ c ∈ name.toList, c ≠ '>' ∧ c ≠ ';' ∧ c ≠ '\n'

inductive Line where
  | rule (higher lower : String) (before left right after : List Char)
  | idle (text : List Char)

namespace Line

def text : Line → List Char
  | rule higher lower before left right after =>
    before ++ higher.toList ++ left ++ '>' :: (right ++ lower.toList ++ after)
  | idle text => text

def pair : Line → Option (String × String)
  | rule higher lower _ _ _ _ => some (higher, lower)
  | idle _ => none

def Blank (text : List Char) : Prop := ∀ c ∈ text, isWhitespace c = true ∧ c ≠ '\n'

/-- A line without an arrow declares nothing, and no more does one with nothing at a side of it. -/
inductive WellFormed : Line → Prop
  | rule {higher lower : String} {before left right after : List Char} : RoleName higher → RoleName lower →
      Blank before → Blank left → Blank right → Blank after →
      WellFormed (.rule higher lower before left right after)
  | arrowless {text : List Char} : (∀ c ∈ text, c ≠ '>' ∧ c ≠ ';' ∧ c ≠ '\n') → WellFormed (.idle text)
  | oneSided {before after : List Char} : (∀ c ∈ before ++ after, c ≠ ';' ∧ c ≠ '\n') → '>' ∉ before →
      Blank before ∨ Blank after → WellFormed (.idle (before ++ '>' :: after))

end Line

section Lines

variable {line : Line} {front back tail : List Char}

theorem splitOnce_arrow (plain : '>' ∉ front) : splitOnce (front ++ '>' :: back) = some (front, back) := by
  have kept : ∀ c ∈ front, decide (c ≠ '>') = true := fun c among =>
    decide_eq_true fun same => plain (same ▸ among)
  rw [splitOnce, List.dropWhile_append_of_pos kept, List.takeWhile_append_of_pos kept]
  simp

theorem splitOnce_plain (plain : '>' ∉ front) : splitOnce front = none := by
  have kept : front.dropWhile (fun c => decide (c ≠ '>')) = [] :=
    List.dropWhile_eq_nil_iff.mpr fun c among => decide_eq_true fun same => plain (same ▸ among)
  rw [splitOnce, kept]

theorem mem_addLine (hierarchy : RoleHierarchy) (raw : List Char) (pair : String × String) :
    pair ∈ (addLine hierarchy raw).implies ↔ pair ∈ hierarchy.implies ∨ parseLine raw = some pair := by
  rw [addLine, parseLine]
  cases splitOnce (trim raw) with
  | none => simp
  | some sides =>
    simp only
    split
    · rw [addImplication]
      split
      · rename_i known
        simp only [Option.some.injEq]
        exact ⟨.inl, fun either => either.elim id fun same => same ▸ known⟩
      · simp [eq_comm]
    · simp

theorem mem_fromString (spec : String) (pair : String × String) : pair ∈ (fromString spec).implies ↔
    ∃ raw ∈ spec.toList.splitOnP fun c => c = '\n' || c = ';', parseLine raw = some pair := by
  have folded : ∀ (chunks : List (List Char)) (hierarchy : RoleHierarchy),
      pair ∈ (chunks.foldl addLine hierarchy).implies ↔
        pair ∈ hierarchy.implies ∨ ∃ raw ∈ chunks, parseLine raw = some pair := by
    intro chunks
    induction chunks with
    | nil => simp
    | cons raw chunks ih =>
      intro hierarchy
      rw [List.foldl_cons, ih, mem_addLine, or_assoc]
      simp
  rw [fromString, folded]
  simp [new]

theorem parseLine_text (wellFormed : line.WellFormed) (white : ∀ c ∈ tail, isWhitespace c = true) :
    parseLine (line.text ++ tail) = line.pair := by
  cases wellFormed with
  | @rule higher lower before left right after first second blankBefore blankLeft blankRight blankAfter =>
    have whole : Line.text (.rule higher lower before left right after) ++ tail =
        before ++ (higher.toList ++ (left ++ '>' :: right) ++ lower.toList) ++ (after ++ tail) := by
      simp [Line.text]
    have ends : ∀ c ∈ after ++ tail, isWhitespace c = true := fun c among =>
      (List.mem_append.mp among).elim (fun inside => (blankAfter c inside).1) (white c)
    have arrow : '>' ∉ higher.toList ++ left := by
      intro among
      rcases List.mem_append.mp among with inside | blank
      · exact (first.plain _ inside).1 rfl
      · exact absurd (blankLeft _ blank).1 (by decide)
    have sides : higher.toList ++ (left ++ '>' :: right) ++ lower.toList =
        higher.toList ++ left ++ '>' :: (right ++ lower.toList) := by simp
    have higherSide : trim ([] ++ higher.toList ++ left) = higher.toList :=
      trim_surround first.trimmed (by simp) fun c among => (blankLeft c among).1
    have lowerSide : trim (right ++ lower.toList ++ []) = lower.toList :=
      trim_surround second.trimmed (fun c among => (blankRight c among).1) (by simp)
    rw [List.nil_append] at higherSide
    rw [List.append_nil] at lowerSide
    rw [parseLine, whole, trim_surround (trim_between first.trimmed first.present second.trimmed
      second.present) (fun c among => (blankBefore c among).1) ends, sides, splitOnce_arrow arrow]
    simp only
    rw [higherSide, lowerSide, if_pos ⟨first.present, second.present⟩]
    simp [Line.pair]
  | @arrowless text plain =>
    have arrow : '>' ∉ trim (text ++ tail) := by
      intro among
      rcases List.mem_append.mp (mem_of_mem_trim among) with inside | blank
      · exact (plain _ inside).1 rfl
      · exact absurd (white _ blank) (by decide)
    rw [Line.text, parseLine, splitOnce_plain arrow]
    rfl
  | @oneSided before after _ early blank =>
    have present : '>' ∈ trim (before ++ '>' :: after ++ tail) := mem_trim (by simp) (by decide)
    obtain ⟨front, back, split, first⟩ := List.eq_append_cons_of_mem present
    obtain ⟨start, rest, whole, startWhite, restWhite⟩ := trim_split (before ++ '>' :: after ++ tail)
    have late : '>' ∉ start ++ front := by
      intro among
      rcases List.mem_append.mp among with blank | inside
      · exact absurd (startWhite _ blank) (by decide)
      · exact first inside
    have same : before ++ '>' :: (after ++ tail) = start ++ front ++ '>' :: (back ++ rest) := by
      rw [split] at whole
      simpa using whole
    obtain ⟨rfl, behind⟩ := first_unique early late same
    have empty : trim front = [] ∨ trim back = [] := by
      refine blank.imp (fun white => ?_) fun white' => ?_
      · exact trim_blank fun c among => (white c (List.mem_append_right _ among)).1
      · refine trim_blank fun c among => ?_
        have inside : c ∈ after ++ tail := behind ▸ List.mem_append_left _ among
        exact (List.mem_append.mp inside).elim (fun own => (white' c own).1) (white c)
    rw [Line.text, parseLine, split, splitOnce_arrow first]
    simp only
    rw [if_neg fun both => empty.elim both.1 both.2]
    rfl

end Lines

inductive Break where
  | lineFeed
  | carriageReturn
  | semicolon

namespace Break

def tail : Break → List Char
  | carriageReturn => ['\r']
  | _ => []

def mark : Break → Char
  | semicolon => ';'
  | _ => '\n'

end Break

structure Document where
  lines : List (Line × Break)
  last : Line

namespace Document

def render (document : Document) : String :=
  String.ofList (document.lines.flatMap (fun (line, stop) => line.text ++ stop.tail ++ [stop.mark]) ++
    document.last.text)

def WellFormed (document : Document) : Prop :=
  (∀ entry ∈ document.lines, entry.1.WellFormed) ∧ document.last.WellFormed

def pairs (document : Document) : List (String × String) :=
  document.lines.filterMap (fun entry => entry.1.pair) ++ document.last.pair.toList

end Document

section Documents

variable {line : Line} {document : Document}

theorem text_unbroken (wellFormed : line.WellFormed) :
    ∀ c ∈ line.text, (c = '\n' || c = ';') = false := by
  have lift : ∀ c : Char, c ≠ ';' ∧ c ≠ '\n' → (c = '\n' || c = ';') = false := by simp; tauto
  intro c among
  cases wellFormed with
  | rule first second blankBefore blankLeft blankRight blankAfter =>
    have blank : ∀ {text : List Char}, Line.Blank text → c ∈ text → c ≠ ';' ∧ c ≠ '\n' :=
      fun white inside => ⟨fun same => absurd (same ▸ (white c inside).1) (by decide), (white c inside).2⟩
    simp only [Line.text, List.mem_append, List.mem_cons] at among
    rcases among with ((before | higher) | left) | rfl | ((right | lower) | after)
    · exact lift c (blank blankBefore before)
    · exact lift c (first.plain c higher).2
    · exact lift c (blank blankLeft left)
    · decide
    · exact lift c (blank blankRight right)
    · exact lift c (second.plain c lower).2
    · exact lift c (blank blankAfter after)
  | arrowless plain => exact lift c (plain c among).2
  | oneSided plain _ _ =>
    simp only [Line.text, List.mem_append, List.mem_cons] at among
    rcases among with before | rfl | after
    · exact lift c (plain c (by simp [before]))
    · decide
    · exact lift c (plain c (by simp [after]))

theorem split_render (wellFormed : document.WellFormed) :
    (document.render.toList.splitOnP fun c => c = '\n' || c = ';') =
      document.lines.map (fun entry => entry.1.text ++ entry.2.tail) ++ [document.last.text] := by
  obtain ⟨lines, last⟩ := document
  obtain ⟨each, final⟩ := wellFormed
  rw [Document.render, String.toList_ofList]
  simp only at each final ⊢
  induction lines with
  | nil => exact List.splitOnP_eq_singleton (text_unbroken final)
  | cons entry lines ih =>
    have unbroken : ∀ c ∈ entry.1.text ++ entry.2.tail, (c = '\n' || c = ';') = false := by
      intro c among
      rcases List.mem_append.mp among with inside | tail
      · exact text_unbroken (each entry (by simp)) c inside
      · cases stop : entry.2 <;> simp [stop, Break.tail] at tail
        rw [tail]
        decide
    have marked : (fun c : Char => c = '\n' || c = ';') entry.2.mark = true := by
      cases entry.2 <;> decide
    rw [List.flatMap_cons, List.append_assoc, List.append_assoc, List.singleton_append,
      List.splitOnP_append_cons_of_forall_mem unbroken entry.2.mark marked,
      ih fun other among => each other (by simp [among])]
    rfl

theorem mem_render (wellFormed : document.WellFormed) (pair : String × String) :
    pair ∈ (fromString document.render).implies ↔ pair ∈ document.pairs := by
  have white : ∀ stop : Break, ∀ c ∈ stop.tail, isWhitespace c = true := by
    intro stop
    cases stop with
    | carriageReturn => simpa [Break.tail] using by decide
    | lineFeed => simp [Break.tail]
    | semicolon => simp [Break.tail]
  have final : parseLine (document.last.text ++ []) = document.last.pair :=
    parseLine_text wellFormed.2 (by simp)
  rw [List.append_nil] at final
  rw [mem_fromString, split_render wellFormed, Document.pairs]
  simp only [List.mem_append, List.mem_map, List.mem_singleton, List.mem_filterMap, Option.mem_toList]
  constructor
  · rintro ⟨raw, ⟨entry, listed, rfl⟩ | rfl, declared⟩
    · refine .inl ⟨entry, listed, ?_⟩
      rw [← declared, parseLine_text (wellFormed.1 entry listed) (white entry.2)]
    · exact .inr (by rw [← declared, final])
  · rintro (⟨entry, listed, declared⟩ | declared)
    · refine ⟨_, .inl ⟨entry, listed, rfl⟩, ?_⟩
      rw [parseLine_text (wellFormed.1 entry listed) (white entry.2), declared]
    · exact ⟨_, .inr rfl, by rw [final]; exact declared⟩

end Documents

def Closure (pairs : List (String × String)) (roles : List String) : Set String :=
  {role | ∃ own ∈ roles, Relation.ReflTransGen (fun higher lower => (higher, lower) ∈ pairs) own role}

section Closure

variable {pairs others : List (String × String)} {roles more all : List String}

theorem closure_mono (within : roles ⊆ more) : Closure pairs roles ⊆ Closure pairs more := by
  rintro role ⟨own, among, path⟩
  exact ⟨own, within among, path⟩

theorem closure_closure (exact : ∀ role, role ∈ all ↔ role ∈ Closure pairs roles) :
    Closure pairs all = Closure pairs roles := by
  ext role
  constructor
  · rintro ⟨between, reached, path⟩
    obtain ⟨own, among, way⟩ := (exact between).mp reached
    exact ⟨own, among, way.trans path⟩
  · intro reached
    exact ⟨role, (exact role).mpr reached, .refl⟩

theorem closure_congr (same : ∀ pair, pair ∈ pairs ↔ pair ∈ others) :
    Closure pairs roles = Closure others roles := by
  simp only [Closure, same]

end Closure

def Orders (self : RoleHierarchy) (order : String → List String) : Prop :=
  ∀ role, (order role).Perm (self.impliedBy role)

def expandIn (self : RoleHierarchy) (order : String → List String) (roles : List String) :
    Option (List String) :=
  explore order (self.bound roles) roles.reverse []

section Expansion

variable {self : RoleHierarchy} {order : String → List String}

theorem remaining_order (orders : self.Orders order) (found : List String) :
    remaining order self.keys found = remaining self.impliedBy self.keys found :=
  Finset.sum_congr rfl fun key _ => (orders key).length_eq

theorem expandIn_exact (orders : self.Orders order) (roles : List String) :
    ∃ all, self.expandIn order roles = some all ∧
      ∀ role, role ∈ all ↔ role ∈ Closure self.implies roles := by
  have counted := self.remaining_le []
  rw [← remaining_order orders] at counted
  have keyed : ∀ key, order key ≠ [] → key ∈ self.keys := fun key leads =>
    self.impliedBy_keys key fun none => leads (List.perm_nil.mp (none ▸ orders key))
  obtain ⟨all, ends, exact⟩ := explore_eq keyed (Explored.start roles.reverse)
    (show _ ≤ self.bound roles by rw [List.length_reverse, bound]; omega)
  have led : ∀ higher lower, lower ∈ order higher ↔ (higher, lower) ∈ self.implies := fun higher lower => by
    rw [(orders higher).mem_iff, impliedBy]
    simp
  refine ⟨all, ends, fun role => ?_⟩
  rw [exact, Reaches]
  simp only [led, List.mem_reverse]
  rfl

end Expansion

theorem expandIn_render {document : Document} (wellFormed : document.WellFormed)
    {order : String → List String} (orders : (fromString document.render).Orders order)
    {roles all : List String} (expanded : (fromString document.render).expandIn order roles = some all) :
    ∀ role, role ∈ all ↔ role ∈ Closure document.pairs roles := by
  obtain ⟨found, ends, exact⟩ := expandIn_exact orders roles
  obtain rfl := Option.some.inj (ends.symm.trans expanded)
  rw [← closure_congr (mem_render wellFormed)]
  exact exact

theorem expand_closure (document : Document) (wellFormed : document.WellFormed)
    (order : String → List String) (orders : (fromString document.render).Orders order)
    (roles : List String) :
    ∃ all, (fromString document.render).expandIn order roles = some all ∧
      (∀ role, role ∈ all ↔ ∃ own ∈ roles,
        Relation.ReflTransGen (fun higher lower => (higher, lower) ∈ document.pairs) own role) ∧
      (∀ more wider, roles ⊆ more → (fromString document.render).expandIn order more = some wider →
        all ⊆ wider) ∧
      (∀ again, (fromString document.render).expandIn order all = some again →
        ∀ role, role ∈ again ↔ role ∈ all) ∧
      ∀ (other : Document) (order' : String → List String) (rest : List String), other.WellFormed →
        (∀ pair, pair ∈ other.pairs ↔ pair ∈ document.pairs) →
        (fromString other.render).Orders order' →
        (fromString other.render).expandIn order' roles = some rest → ∀ role, role ∈ rest ↔ role ∈ all := by
  obtain ⟨all, ends, -⟩ := expandIn_exact orders roles
  have exact := expandIn_render wellFormed orders ends
  refine ⟨all, ends, exact, fun more wider within expanded role among => ?_, fun again expanded role => ?_,
    fun other order' rest otherFormed same orders' expanded role => ?_⟩
  · exact (expandIn_render wellFormed orders expanded role).mpr (closure_mono within ((exact role).mp among))
  · rw [expandIn_render wellFormed orders expanded role, closure_closure exact, exact role]
  · rw [expandIn_render otherFormed orders' expanded role, closure_congr same, exact role]

def cycle : Document where
  lines := [(.rule "ADMIN" "USER" [] [' '] [' '] [' '], .semicolon),
    (.idle "and back".toList, .carriageReturn)]
  last := .rule "USER" "ADMIN" ['\t'] [] [] []

example : cycle.render = "ADMIN > USER ;and back\r\n\tUSER>ADMIN" := by decide

theorem cycle_expanded : ∃ all,
    (fromString cycle.render).expandIn (fromString cycle.render).impliedBy ["USER"] = some all ∧
      "USER" ∈ all ∧ "ADMIN" ∈ all := by
  have admin : RoleName "ADMIN" := ⟨by decide, by decide +kernel, by simp⟩
  have user : RoleName "USER" := ⟨by decide, by decide +kernel, by simp⟩
  have nothing : Line.Blank [] := by simp [Line.Blank]
  have one : ∀ c, isWhitespace c = true → c ≠ '\n' → Line.Blank [c] := by
    intro c white unbroken d among
    rw [List.mem_singleton.mp among]
    exact ⟨white, unbroken⟩
  have space := one ' ' (by decide) (by decide)
  have wellFormed : cycle.WellFormed := by
    refine ⟨?_, .rule user admin (one '\t' (by decide) (by decide)) nothing nothing nothing⟩
    intro entry listed
    simp only [cycle, List.mem_cons, List.not_mem_nil, or_false] at listed
    rcases listed with rfl | rfl
    · exact .rule admin user nothing space space space
    · exact .arrowless (by simp)
  obtain ⟨all, ends, exact, -⟩ := expand_closure cycle wellFormed (fromString cycle.render).impliedBy
    (fun role => .refl _) ["USER"]
  refine ⟨all, ends, (exact "USER").mpr ⟨"USER", by simp, .refl⟩, (exact "ADMIN").mpr ?_⟩
  exact ⟨"USER", by simp, .single (by simp [cycle, Document.pairs, Line.pair])⟩

end RoleHierarchy

end Firefly.Security
