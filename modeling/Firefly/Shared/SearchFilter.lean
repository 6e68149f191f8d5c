import Firefly.Shared.Holes

set_option autoImplicit false

/-!
# The string representation of LDAP search filters

The grammar of RFC 4515, as trees that are written down. An assertion value of a tree stands as it is
written, with its escapes; its octets are read off it.
-/

namespace Firefly.SearchFilter

open Holes

def isPlain (c : Char) : Bool := c ≠ '\x00' && c ≠ '(' && c ≠ ')' && c ≠ '*' && c ≠ '\\'

def isHex (c : Char) : Bool := c.isDigit || ('a' ≤ c && c ≤ 'f') || ('A' ≤ c && c ≤ 'F')

def hexValue (c : Char) : Nat :=
  if c.isDigit then c.toNat - 48 else if 'a' ≤ c then c.toNat - 87 else c.toNat - 55

def octet (high low : Char) : UInt8 := UInt8.ofNat (16 * hexValue high + hexValue low)

inductive Encoded : List Symbol → Prop where
  | nil : Encoded []
  | hole (index : Char) {rest : List Symbol} (encoded : Encoded rest) : Encoded (.hole index :: rest)
  | plain {c : Char} (plain : isPlain c = true) {rest : List Symbol} (encoded : Encoded rest) :
    Encoded (.char c :: rest)
  | escaped {high low : Char} (high_hex : isHex high = true) (low_hex : isHex low = true)
    {rest : List Symbol} (encoded : Encoded rest) :
    Encoded (.char '\\' :: .char high :: .char low :: rest)

def octets (value : Char → List UInt8) : List Symbol → List UInt8
  | .hole index :: rest => value index ++ octets value rest
  | .char '\\' :: .char high :: .char low :: rest => octet high low :: octets value rest
  | .char c :: rest => String.utf8EncodeChar c ++ octets value rest
  | [] => []

def unescape (text : List Char) : List UInt8 := octets (fun _ => []) (chars text)

section Values

variable {first second parts rest : List Symbol} {value : Char → List UInt8} {c : Char}

@[simp] theorem octets_nil : octets value [] = [] := by simp [octets]

@[simp] theorem octets_hole (index : Char) :
    octets value (.hole index :: rest) = value index ++ octets value rest := by
  simp [octets]

theorem octets_plain (plain : isPlain c = true) :
    octets value (.char c :: rest) = String.utf8EncodeChar c ++ octets value rest := by
  have unescaped : c ≠ '\\' := by
    rintro rfl
    simp [isPlain] at plain
  conv_lhs => unfold octets
  split
  next same => simp at same
  next same =>
    obtain ⟨same, -⟩ := List.cons.inj same
    exact absurd (Symbol.char.inj same) unescaped
  next same =>
    obtain ⟨head, rfl⟩ := List.cons.inj same
    obtain rfl := Symbol.char.inj head
    rfl
  next same => simp at same

theorem octets_escaped (high low : Char) :
    octets value (.char '\\' :: .char high :: .char low :: rest) = octet high low :: octets value rest := by
  simp [octets]

theorem Encoded.append (encoded : Encoded first) (other : Encoded second) : Encoded (first ++ second) := by
  induction encoded with
  | nil => exact other
  | hole index _ ih => exact .hole index ih
  | plain plain _ ih => exact .plain plain ih
  | escaped high low _ ih => exact .escaped high low ih

theorem octets_append (encoded : Encoded first) (second : List Symbol) :
    octets value (first ++ second) = octets value first ++ octets value second := by
  induction encoded with
  | nil => simp
  | hole index _ ih => simp [ih]
  | plain plain _ ih => simp [octets_plain plain, ih]
  | escaped high low _ ih => simp [octets_escaped, ih]

theorem isPlain_hex (hex : isHex c = true) : isPlain c = true := by
  unfold isPlain
  by_contra special
  have among : c = '\x00' ∨ c = '(' ∨ c = ')' ∨ c = '*' ∨ c = '\\' := by
    simp only [Bool.and_eq_true, decide_eq_true_eq, ne_eq] at special
    tauto
  rcases among with rfl | rfl | rfl | rfl | rfl <;> revert hex <;> decide

theorem isHex_brace (hex : isHex c = true) : c ≠ '\x7b' ∧ c ≠ '\x7d' := by
  constructor <;> (rintro rfl; revert hex; decide)

def isStop (c : Char) : Prop := c = '(' ∨ c = ')' ∨ c = '*'

theorem isPlain_stop (plain : isPlain c = true) : ¬ isStop c := by
  rintro (rfl | rfl | rfl) <;> simp [isPlain] at plain

theorem Encoded.unstopped (encoded : Encoded parts) (inside : .char c ∈ parts) : ¬ isStop c := by
  induction encoded with
  | nil => simp at inside
  | hole index _ ih => exact ih (by simpa using inside)
  | plain plain _ ih =>
    rcases List.mem_cons.mp inside with same | later
    · obtain rfl := Symbol.char.inj same
      exact isPlain_stop plain
    · exact ih later
  | escaped high low _ ih =>
    simp only [List.mem_cons, Symbol.char.injEq] at inside
    rcases inside with rfl | rfl | rfl | later
    · simp [isStop]
    · exact isPlain_stop (isPlain_hex high)
    · exact isPlain_stop (isPlain_hex low)
    · exact ih later

theorem Encoded.spell {fill : Char → List Char} (encoded : Encoded parts)
    (fills : ∀ index, Encoded (chars (fill index))) : Encoded (chars (spell fill parts)) := by
  induction encoded with
  | nil => exact .nil
  | hole index _ ih =>
    rw [spell_hole, chars, List.map_append]
    exact (fills index).append ih
  | plain plain _ ih => exact .plain plain ih
  | escaped high low _ ih => exact .escaped high low ih

theorem unescape_spell {fill : Char → List Char} (encoded : Encoded parts)
    (fills : ∀ index, Encoded (chars (fill index))) :
    unescape (Holes.spell fill parts) = octets (fun index => unescape (fill index)) parts := by
  unfold unescape
  induction encoded with
  | nil => simp [chars]
  | hole index _ ih =>
    rw [spell_hole, octets_hole, ← ih, chars, List.map_append]
    exact octets_append (fills index) _
  | plain plain _ ih =>
    rw [octets_plain plain, ← ih]
    exact octets_plain plain
  | escaped high low _ ih =>
    rw [octets_escaped, ← ih]
    exact octets_escaped _ _

theorem Encoded.put {fill : Char → List Symbol} (encoded : Encoded parts)
    (fills : ∀ index, Encoded (fill index)) : Encoded (put fill parts) := by
  induction encoded with
  | nil => exact .nil
  | hole index _ ih => exact (fills index).append ih
  | plain plain _ ih => exact .plain plain ih
  | escaped high low _ ih => exact .escaped high low ih

theorem octets_put {fill : Char → List Symbol} (encoded : Encoded parts)
    (fills : ∀ index, Encoded (fill index)) :
    octets value (Holes.put fill parts) = octets (fun index => octets value (fill index)) parts := by
  induction encoded with
  | nil => simp
  | hole index _ ih => rw [put_hole, octets_append (fills index), ih, octets_hole]
  | plain plain _ ih => rw [put_char, octets_plain plain, octets_plain plain, ih]
  | escaped high low _ ih => rw [put_char, put_char, put_char, octets_escaped, octets_escaped, ih]

theorem Encoded.after_literal {index : Char} {tail : List Symbol}
    (encoded : Encoded (.char '\x7b' :: .char index :: .char '\x7d' :: tail)) : Encoded tail := by
  cases encoded with
  | plain _ inner =>
    cases inner with
    | plain _ inner =>
      cases inner with
      | plain _ tail => exact tail
    | escaped high => exact absurd high (by decide)

-- No hole begins within an escape.
theorem finer_of_escaped {extra : Nat} {high low : Char} (high_hex : isHex high = true)
    (low_hex : isHex low = true)
    (finer : Finer extra first (.char '\\' :: .char high :: .char low :: rest)) :
    ∃ tail, first = .char '\\' :: .char high :: .char low :: tail ∧ Finer extra tail rest := by
  obtain ⟨tail, rfl, after⟩ | ⟨_, _, _, _, brace, -⟩ := finer.of_cons
  · obtain ⟨tail, rfl, later⟩ | ⟨_, _, _, _, brace, -⟩ := after.of_cons
    · obtain ⟨tail, rfl, last⟩ | ⟨_, _, _, _, brace, -⟩ := later.of_cons
      · exact ⟨tail, rfl, last⟩
      · exact absurd (Symbol.char.inj brace) (isHex_brace low_hex).1
    · exact absurd (Symbol.char.inj brace) (isHex_brace high_hex).1
  · simp at brace

-- A further hole stands where the text of the hole was.
theorem octets_finer {extra : Nat} {index : Char} (digit : isHex index = true)
    (finer : Finer extra first second) (encoded : Encoded second)
    (holes : ∀ found, .hole found ∈ first → found = index) :
    Strayed (value index) (octets value (chars (literal index))) extra (octets value first)
      (octets value second) := by
  induction size : second.length using Nat.strong_induction_on generalizing extra first second with
  | _ size ih =>
    subst size
    cases encoded with
    | nil =>
      obtain ⟨rfl, rfl⟩ := finer.of_nil
      simpa using Strayed.nil
    | hole own encoded =>
      obtain ⟨tail, rfl, rest⟩ | ⟨_, _, _, _, brace, -⟩ := finer.of_cons
      · rw [octets_hole, octets_hole]
        exact .same _ (ih _ (by simp) rest encoded (fun found inside => holes found (by simp [inside])) rfl)
      · simp at brace
    | escaped high low encoded =>
      obtain ⟨tail, rfl, rest⟩ := finer_of_escaped high low finer
      rw [octets_escaped, octets_escaped]
      exact .same [_] (ih _ (by simp; omega) rest encoded
        (fun found inside => holes found (by simp [inside])) rfl)
    | plain plain encoded =>
      obtain ⟨tail, rfl, rest⟩ | ⟨found, fewer, tail, after, brace, rfl, rfl, rfl, rest⟩ := finer.of_cons
      · rw [octets_plain plain, octets_plain plain]
        exact .same _ (ih _ (by simp) rest encoded (fun found inside => holes found (by simp [inside])) rfl)
      · obtain rfl := Symbol.char.inj brace
        obtain rfl := holes found (by simp)
        have literal_encoded : Encoded (chars (literal found)) :=
          .plain (by decide) (.plain (isPlain_hex digit) (.plain (by decide) .nil))
        have split : Symbol.char '\x7b' :: .char found :: .char '\x7d' :: after =
          chars (literal found) ++ after := rfl
        have later : Encoded after := Encoded.after_literal (.plain plain encoded)
        rw [octets_hole, split, octets_append literal_encoded]
        exact .stray (ih _ (by simp; omega) rest later (fun other inside => holes other (by simp [inside])) rfl)

theorem Encoded.finer {extra : Nat} (encoded : Encoded second) (finer : Finer extra first second) :
    Encoded first := by
  induction size : second.length using Nat.strong_induction_on generalizing extra first second with
  | _ size ih =>
    subst size
    cases encoded with
    | nil =>
      obtain ⟨-, rfl⟩ := finer.of_nil
      exact .nil
    | hole own encoded =>
      obtain ⟨tail, rfl, rest⟩ | ⟨_, _, _, _, brace, -⟩ := finer.of_cons
      · exact .hole own (ih _ (by simp) encoded rest rfl)
      · simp at brace
    | escaped high low encoded =>
      obtain ⟨tail, rfl, rest⟩ := finer_of_escaped high low finer
      exact .escaped high low (ih _ (by simp; omega) encoded rest rfl)
    | plain plain encoded =>
      obtain ⟨tail, rfl, rest⟩ | ⟨found, fewer, tail, after, brace, rfl, rfl, rfl, rest⟩ := finer.of_cons
      · exact .plain plain (ih _ (by simp) encoded rest rfl)
      · obtain rfl := Symbol.char.inj brace
        exact .hole found (ih _ (by simp; omega) (Encoded.after_literal (.plain plain encoded)) rest rfl)

theorem Encoded.symbols {p : Char → Bool} {text : List Char} (sound : Braceless p)
    (encoded : Encoded (chars text)) : Encoded (symbols p text) := by
  obtain ⟨extra, finer⟩ := symbols_finer sound (chars text) (by simp [chars])
  rw [spell_chars] at finer
  exact encoded.finer finer

theorem octets_ne_nil (encoded : Encoded (.char c :: rest)) : octets value (.char c :: rest) ≠ [] := by
  cases encoded with
  | plain plain =>
    rw [octets_plain plain]
    simp [String.utf8EncodeChar_ne_nil]
  | escaped =>
    rw [octets_escaped]
    simp

theorem unescape_eq_nil {text : List Char} (encoded : Encoded (chars text)) :
    unescape text = [] ↔ text = [] := by
  cases text with
  | nil => simp [unescape, chars]
  | cons c rest =>
    simp only [reduceCtorEq, iff_false]
    exact octets_ne_nil encoded

end Values

def isAttributeChar (c : Char) : Bool := c.isAlphanum || c = '-' || c = '.' || c = ';'

@[ext] structure Attribute where
  text : List Char
  present : text ≠ []
  valid : ∀ c ∈ text, isAttributeChar c = true
deriving DecidableEq

inductive FilterType where
  | equal
  | approx
  | greaterOrEqual
  | lessOrEqual
deriving DecidableEq, Repr

def FilterType.mark : FilterType → List Char
  | .equal => []
  | .approx => ['~']
  | .greaterOrEqual => ['>']
  | .lessOrEqual => ['<']

/-- What stands before the `:=` of an extensible match. -/
@[ext] structure Rule where
  text : List Char
  present : text ≠ []
  valid : ∀ c ∈ text, isAttributeChar c = true ∨ c = ':'
deriving DecidableEq

inductive Item (V : Type) where
  | simple (attr : Attribute) (type : FilterType) (value : V)
  | present (attr : Attribute)
  | substring (attr : Attribute) (initial : V) (any : List V) (final : V)
  | extensible (rule : Rule) (value : V)
deriving DecidableEq

mutual

inductive Filter (V : Type) where
  | and (filters : Filters V)
  | or (filters : Filters V)
  | not (filter : Filter V)
  | item (item : Item V)

inductive Filters (V : Type) where
  | one (filter : Filter V)
  | more (filter : Filter V) (filters : Filters V)

end

section Trees

variable {V W : Type}

def Item.map (f : V → W) : Item V → Item W
  | .simple attr type value => .simple attr type (f value)
  | .present attr => .present attr
  | .substring attr initial any final => .substring attr (f initial) (any.map f) (f final)
  | .extensible rule value => .extensible rule (f value)

def Item.values : Item V → List V
  | .simple _ _ value | .extensible _ value => [value]
  | .present _ => []
  | .substring _ initial any final => initial :: any ++ [final]

def Item.head : Item V → List Char
  | .simple attr type _ => attr.text ++ type.mark
  | .present attr | .substring attr .. => attr.text
  | .extensible rule _ => rule.text ++ [':']

def Item.parts : Item (List Char) → List (List Char)
  | .present _ => [[], []]
  | item => item.values

def joined : List (List Char) → List Char
  | [] => []
  | [value] => value
  | value :: next :: rest => value ++ '*' :: joined (next :: rest)

def Item.render (item : Item (List Char)) : List Char := item.head ++ '=' :: joined item.parts

def Item.Blank (blank : V → Prop) : Item V → Prop
  | .substring _ initial any final => blank initial ∧ any = [] ∧ blank final
  | _ => False

def Item.WellFormed (item : Item (List Char)) : Prop :=
  (∀ value ∈ item.values, Encoded (chars value)) ∧ ¬ item.Blank (· = [])

def Item.read : Item (List Char) → Item (List Char)
  | .substring attr [] [] [] => .present attr
  | item => item

mutual

def Filter.mapItems (f : Item V → Item W) : Filter V → Filter W
  | .and filters => .and (filters.mapItems f)
  | .or filters => .or (filters.mapItems f)
  | .not filter => .not (filter.mapItems f)
  | .item item => .item (f item)

def Filters.mapItems (f : Item V → Item W) : Filters V → Filters W
  | .one filter => .one (filter.mapItems f)
  | .more filter filters => .more (filter.mapItems f) (filters.mapItems f)

end

def Filter.map (f : V → W) : Filter V → Filter W := Filter.mapItems (Item.map f)

mutual

def Filter.items : Filter V → List (Item V)
  | .and filters | .or filters => filters.items
  | .not filter => filter.items
  | .item item => [item]

def Filters.items : Filters V → List (Item V)
  | .one filter => filter.items
  | .more filter filters => filter.items ++ filters.items

end

mutual

def Filter.render : Filter (List Char) → List Char
  | .and filters => '(' :: '&' :: filters.render ++ [')']
  | .or filters => '(' :: '|' :: filters.render ++ [')']
  | .not filter => '(' :: '!' :: filter.render ++ [')']
  | .item item => '(' :: item.render ++ [')']

def Filters.render : Filters (List Char) → List Char
  | .one filter => filter.render
  | .more filter filters => filter.render ++ filters.render

end

def Filter.WellFormed (filter : Filter (List Char)) : Prop := ∀ item ∈ filter.items, item.WellFormed

def Filters.WellFormed (filters : Filters (List Char)) : Prop := ∀ item ∈ filters.items, item.WellFormed

def Parses (text : List Char) (filter : Filter (List Char)) : Prop :=
  filter.WellFormed ∧ filter.render = text

end Trees

theorem split_unique {stop : Char} {first second after after' : List Char} (free : stop ∉ first)
    (free' : stop ∉ second) (same : first ++ stop :: after = second ++ stop :: after') :
    first = second ∧ after = after' := by
  induction first generalizing second with
  | nil =>
    cases second with
    | nil => exact ⟨rfl, (List.cons.inj same).2⟩
    | cons c second => exact absurd (by simp [(List.cons.inj same).1]) free'
  | cons c first ih =>
    cases second with
    | nil => exact absurd (by simp [(List.cons.inj same).1]) free
    | cons d second =>
      obtain ⟨rfl, rest⟩ := List.cons.inj same
      obtain ⟨rfl, rfl⟩ := ih (fun inside => free (List.mem_cons_of_mem _ inside))
        (fun inside => free' (List.mem_cons_of_mem _ inside)) rest
      exact ⟨rfl, rfl⟩

section Unique

variable {item other : Item (List Char)} {after after' : List Char}

theorem isAttributeChar_apart {c : Char} (valid : isAttributeChar c = true) :
    c ∉ ['~', '>', '<', ':', '=', '(', ')', '&', '|', '!', '\x7b', '\x7d', '*'] := by
  intro among
  simp only [List.mem_cons, List.not_mem_nil, or_false] at among
  rcases among with rfl | rfl | rfl | rfl | rfl | rfl | rfl | rfl | rfl | rfl | rfl | rfl | rfl <;>
    revert valid <;> decide

theorem Attribute.notMem (attr : Attribute) {c : Char}
    (special : c ∈ ['~', '>', '<', ':', '=', '(', ')', '&', '|', '!', '\x7b', '\x7d', '*']) :
    c ∉ attr.text :=
  fun inside => isAttributeChar_apart (attr.valid c inside) special

theorem Rule.notMem (rule : Rule) {c : Char}
    (special : c ∈ ['=', '(', ')', '&', '|', '!', '\x7b', '\x7d', '*']) : c ∉ rule.text := by
  intro inside
  rcases rule.valid c inside with valid | rfl
  · exact isAttributeChar_apart valid (by revert special; simp; tauto)
  · simp at special

theorem Item.head_notMem (item : Item (List Char)) {c : Char}
    (special : c ∈ ['=', '(', ')', '&', '|', '!', '\x7b', '\x7d', '*']) : c ∉ item.head := by
  have wider : c ∈ ['~', '>', '<', ':', '=', '(', ')', '&', '|', '!', '\x7b', '\x7d', '*'] := by
    revert special
    simp
    tauto
  cases item with
  | simple attr type value =>
    intro inside
    rcases List.mem_append.mp inside with text | mark
    · exact attr.notMem wider text
    · cases type <;> simp [FilterType.mark] at mark <;> subst mark <;> simp at special
  | present attr => exact attr.notMem wider
  | substring attr => exact attr.notMem wider
  | extensible rule value =>
    intro inside
    rcases List.mem_append.mp inside with text | mark
    · exact rule.notMem special text
    · obtain rfl : c = ':' := by simpa using mark
      simp at special

theorem marked_inj {attr attr' : Attribute} {type type' : FilterType}
    (same : attr.text ++ type.mark = attr'.text ++ type'.mark) :
    attr = attr' ∧ type = type' := by
  have text (a : Attribute) (t : FilterType) : (a.text ++ t.mark).takeWhile isAttributeChar = a.text := by
    rw [List.takeWhile_append_of_pos a.valid]
    cases t <;> simp [FilterType.mark, isAttributeChar]
  have texts : attr.text = attr'.text := by
    rw [← text attr type, same, text]
  rw [texts] at same
  have marks := List.append_cancel_left same
  refine ⟨Attribute.ext texts, ?_⟩
  cases type <;> cases type' <;> simp [FilterType.mark] at marks <;> rfl

theorem mem_joined {values : List (List Char)} {c : Char} (inside : c ∈ joined values) :
    c = '*' ∨ ∃ value ∈ values, c ∈ value := by
  induction values using joined.induct with
  | case1 => simp [joined] at inside
  | case2 value => exact .inr ⟨value, by simp, inside⟩
  | case3 value next rest ih =>
    rw [joined, List.mem_append, List.mem_cons] at inside
    rcases inside with here | rfl | later
    · exact .inr ⟨value, by simp, here⟩
    · exact .inl rfl
    · exact (ih later).imp_right fun ⟨value, among, here⟩ => ⟨value, List.mem_cons_of_mem _ among, here⟩

theorem joined_inj {values others : List (List Char)} (some : values ≠ []) (some' : others ≠ [])
    (free : ∀ value ∈ values, '*' ∉ value) (free' : ∀ value ∈ others, '*' ∉ value)
    (same : joined values = joined others) : values = others := by
  induction values using joined.induct generalizing others with
  | case1 => exact absurd rfl some
  | case2 value =>
    match others with
    | [] => exact absurd rfl some'
    | [other] => exact congrArg (fun v => [v]) same
    | other :: next :: rest =>
      refine absurd ?_ (free value (by simp))
      rw [show value = other ++ '*' :: joined (next :: rest) from same]
      simp
  | case3 value next rest ih =>
    match others with
    | [] => exact absurd rfl some'
    | [other] =>
      refine absurd ?_ (free' other (by simp))
      rw [show other = value ++ '*' :: joined (next :: rest) from same.symm]
      simp
    | other :: next' :: rest' =>
      obtain ⟨rfl, later⟩ := split_unique (free value (by simp)) (free' other (by simp)) same
      rw [ih (by simp) (by simp) (fun value among => free value (List.mem_cons_of_mem _ among))
        (fun value among => free' value (List.mem_cons_of_mem _ among)) later]

theorem Item.WellFormed.parts_free (wellFormed : item.WellFormed) {value : List Char}
    (among : value ∈ item.parts) {c : Char} (stop : isStop c) : c ∉ value := by
  intro inside
  have encoded (inner : value ∈ item.values) : False :=
    (wellFormed.1 value inner).unstopped (List.mem_map_of_mem inside) stop
  cases item with
  | present attr =>
    have none : value = [] := by simpa [Item.parts] using among
    simp [none] at inside
  | simple attr type own => exact encoded among
  | substring attr initial any final => exact encoded among
  | extensible rule own => exact encoded among

theorem Item.parts_ne_nil (item : Item (List Char)) : item.parts ≠ [] := by
  cases item <;> simp [Item.parts, Item.values]

theorem Item.eq_of_head_parts (wellFormed : item.WellFormed) (wellFormed' : other.WellFormed)
    (heads : item.head = other.head) (parts : item.parts = other.parts) : item = other := by
  have colon (a : Attribute) (t : FilterType) (r : Rule) : a.text ++ t.mark ≠ r.text ++ [':'] := by
    intro same
    have inside : ':' ∈ a.text ++ t.mark := by simp [same]
    rcases List.mem_append.mp inside with text | mark
    · exact a.notMem (by simp) text
    · cases t <;> simp [FilterType.mark] at mark
  cases item with
  | simple attr type value =>
    cases other with
    | simple attr' type' value' =>
      obtain ⟨rfl, rfl⟩ := marked_inj heads
      obtain rfl : value = value' := by simpa [Item.parts, Item.values] using parts
      rfl
    | present attr' => simp [Item.parts, Item.values] at parts
    | substring attr' initial any final => simp [Item.parts, Item.values] at parts
    | extensible rule value' => exact absurd heads (colon _ _ _)
  | present attr =>
    cases other with
    | simple attr' type' value' => simp [Item.parts, Item.values] at parts
    | present attr' => rw [Attribute.ext heads]
    | substring attr' initial any final =>
      cases any with
      | nil =>
        obtain ⟨rfl, rfl⟩ : [] = initial ∧ [] = final := by simpa [Item.parts, Item.values] using parts
        exact absurd ⟨rfl, rfl, rfl⟩ wellFormed'.2
      | cons => simp [Item.parts, Item.values] at parts
    | extensible rule value' => simp [Item.parts, Item.values] at parts
  | substring attr initial any final =>
    cases other with
    | simple attr' type' value' => simp [Item.parts, Item.values] at parts
    | present attr' =>
      cases any with
      | nil =>
        obtain ⟨rfl, rfl⟩ : initial = [] ∧ final = [] := by simpa [Item.parts, Item.values] using parts
        exact absurd ⟨rfl, rfl, rfl⟩ wellFormed.2
      | cons => simp [Item.parts, Item.values] at parts
    | substring attr' initial' any' final' =>
      obtain ⟨rfl, rest⟩ := List.cons.inj (show initial :: (any ++ [final]) = initial' :: (any' ++ [final'])
        from parts)
      obtain ⟨rfl, last⟩ := List.append_inj' rest rfl
      obtain rfl : final = final' := by simpa using last
      rw [Attribute.ext heads]
    | extensible rule value' => simp [Item.parts, Item.values] at parts
  | extensible rule value =>
    cases other with
    | simple attr' type' value' => exact absurd heads.symm (colon _ _ _)
    | present attr' => simp [Item.parts, Item.values] at parts
    | substring attr' initial any final => simp [Item.parts, Item.values] at parts
    | extensible rule' value' =>
      obtain rfl : value = value' := by simpa [Item.parts, Item.values] using parts
      rw [Rule.ext (List.append_cancel_right heads)]

theorem Item.render_inj (wellFormed : item.WellFormed) (wellFormed' : other.WellFormed)
    (same : item.render ++ ')' :: after = other.render ++ ')' :: after') : item = other ∧ after = after' := by
  have closed (i : Item (List Char)) (formed : i.WellFormed) : ')' ∉ joined i.parts := by
    intro inside
    rcases mem_joined inside with star | ⟨value, among, here⟩
    · simp at star
    · exact formed.parts_free among (.inr (.inl rfl)) here
  have shape (i : Item (List Char)) (rest : List Char) :
      i.render ++ ')' :: rest = i.head ++ '=' :: (joined i.parts ++ ')' :: rest) := by
    simp [Item.render]
  rw [shape, shape] at same
  obtain ⟨heads, bodies⟩ := split_unique (item.head_notMem (by simp)) (other.head_notMem (by simp)) same
  obtain ⟨parts, rfl⟩ := split_unique (closed item wellFormed) (closed other wellFormed') bodies
  refine ⟨Item.eq_of_head_parts wellFormed wellFormed' heads ?_, rfl⟩
  exact joined_inj item.parts_ne_nil other.parts_ne_nil
    (fun value among => wellFormed.parts_free among (.inr (.inr rfl)))
    (fun value among => wellFormed'.parts_free among (.inr (.inr rfl))) parts

theorem Item.render_head (item : Item (List Char)) :
    ∃ c rest, item.render = c :: rest ∧ c ≠ '&' ∧ c ≠ '|' ∧ c ≠ '!' := by
  have present : item.head ≠ [] := by
    cases item with
    | simple attr type value => simp [Item.head, attr.present]
    | present attr => exact attr.present
    | substring attr initial any final => exact attr.present
    | extensible rule value => simp [Item.head]
  obtain ⟨c, rest, head⟩ := List.exists_cons_of_ne_nil present
  have clean (special : Char) (listed : special ∈ ['=', '(', ')', '&', '|', '!', '\x7b', '\x7d', '*']) :
      c ≠ special := by
    rintro rfl
    exact item.head_notMem listed (by simp [head])
  exact ⟨c, rest ++ '=' :: joined item.parts, by simp [Item.render, head],
    clean '&' (by simp), clean '|' (by simp), clean '!' (by simp)⟩

theorem Filter.render_head (filter : Filter (List Char)) : ∃ rest, filter.render = '(' :: rest := by
  cases filter <;> exact ⟨_, by rw [Filter.render]; rfl⟩

theorem Filters.render_head (filters : Filters (List Char)) : ∃ rest, filters.render = '(' :: rest := by
  cases filters with
  | one filter =>
    obtain ⟨rest, shape⟩ := filter.render_head
    exact ⟨rest, by rw [Filters.render, shape]⟩
  | more filter filters =>
    obtain ⟨rest, shape⟩ := filter.render_head
    exact ⟨rest ++ filters.render, by rw [Filters.render, shape]; rfl⟩

end Unique

mutual

theorem Filter.render_inj : ∀ (filter other : Filter (List Char)), filter.WellFormed → other.WellFormed →
    ∀ after after', filter.render ++ after = other.render ++ after' → filter = other ∧ after = after'
  | .and filters, other, wellFormed, wellFormed', after, after', same => by
    cases other with
    | and others =>
      simp only [Filter.render, List.cons_append, List.append_assoc, List.cons.injEq, true_and] at same
      obtain ⟨rfl, rfl⟩ := Filters.render_inj filters others wellFormed wellFormed' after after' same
      exact ⟨rfl, rfl⟩
    | or others => simp [Filter.render] at same
    | not filter => simp [Filter.render] at same
    | item item =>
      obtain ⟨c, rest, shape, clean, -⟩ := item.render_head
      simp only [Filter.render, shape, List.cons_append, List.cons.injEq, true_and] at same
      exact absurd same.1.symm clean
  | .or filters, other, wellFormed, wellFormed', after, after', same => by
    cases other with
    | and others => simp [Filter.render] at same
    | or others =>
      simp only [Filter.render, List.cons_append, List.append_assoc, List.cons.injEq, true_and] at same
      obtain ⟨rfl, rfl⟩ := Filters.render_inj filters others wellFormed wellFormed' after after' same
      exact ⟨rfl, rfl⟩
    | not filter => simp [Filter.render] at same
    | item item =>
      obtain ⟨c, rest, shape, -, clean, -⟩ := item.render_head
      simp only [Filter.render, shape, List.cons_append, List.cons.injEq, true_and] at same
      exact absurd same.1.symm clean
  | .not filter, other, wellFormed, wellFormed', after, after', same => by
    cases other with
    | and others => simp [Filter.render] at same
    | or others => simp [Filter.render] at same
    | not inner =>
      simp only [Filter.render, List.cons_append, List.append_assoc, List.cons.injEq, true_and] at same
      obtain ⟨rfl, rest⟩ := Filter.render_inj filter inner wellFormed wellFormed' _ _ same
      exact ⟨rfl, by simpa using rest⟩
    | item item =>
      obtain ⟨c, rest, shape, -, -, clean⟩ := item.render_head
      simp only [Filter.render, shape, List.cons_append, List.cons.injEq, true_and] at same
      exact absurd same.1.symm clean
  | .item item, other, wellFormed, wellFormed', after, after', same => by
    obtain ⟨c, rest, shape, and, or, not⟩ := item.render_head
    cases other with
    | and others =>
      simp only [Filter.render, shape, List.cons_append, List.cons.injEq, true_and] at same
      exact absurd same.1 and
    | or others =>
      simp only [Filter.render, shape, List.cons_append, List.cons.injEq, true_and] at same
      exact absurd same.1 or
    | not filter =>
      simp only [Filter.render, shape, List.cons_append, List.cons.injEq, true_and] at same
      exact absurd same.1 not
    | item second =>
      simp only [Filter.render, List.cons_append, List.append_assoc, List.cons.injEq, true_and] at same
      obtain ⟨rfl, rfl⟩ := Item.render_inj (wellFormed item (by simp [Filter.items]))
        (wellFormed' second (by simp [Filter.items])) same
      exact ⟨rfl, rfl⟩

theorem Filters.render_inj : ∀ (filters others : Filters (List Char)), filters.WellFormed →
    others.WellFormed → ∀ after after', filters.render ++ ')' :: after = others.render ++ ')' :: after' →
      filters = others ∧ after = after'
  | .one filter, others, wellFormed, wellFormed', after, after', same => by
    cases others with
    | one other =>
      simp only [Filters.render] at same
      obtain ⟨rfl, rest⟩ := Filter.render_inj filter other wellFormed wellFormed' _ _ same
      exact ⟨rfl, (List.cons.inj rest).2⟩
    | more other others =>
      simp only [Filters.render, List.append_assoc] at same
      have formed : other.WellFormed := fun item among => wellFormed' item (by simp [Filters.items, among])
      obtain ⟨rfl, rest⟩ := Filter.render_inj filter other wellFormed formed _ _ same
      obtain ⟨more, shape⟩ := others.render_head
      simp [shape] at rest
  | .more filter filters, others, wellFormed, wellFormed', after, after', same => by
    have first : filter.WellFormed := fun item among => wellFormed item (by simp [Filters.items, among])
    have later : filters.WellFormed := fun item among => wellFormed item (by simp [Filters.items, among])
    cases others with
    | one other =>
      simp only [Filters.render, List.append_assoc] at same
      obtain ⟨rfl, rest⟩ := Filter.render_inj filter other first wellFormed' _ _ same
      obtain ⟨more, shape⟩ := filters.render_head
      simp [shape] at rest
    | more other others =>
      simp only [Filters.render, List.append_assoc] at same
      have first' : other.WellFormed := fun item among => wellFormed' item (by simp [Filters.items, among])
      have later' : others.WellFormed := fun item among => wellFormed' item (by simp [Filters.items, among])
      obtain ⟨rfl, rest⟩ := Filter.render_inj filter other first first' _ _ same
      obtain ⟨rfl, rfl⟩ := Filters.render_inj filters others later later' _ _ rest
      exact ⟨rfl, rfl⟩

end

theorem Parses.unique {text : List Char} {first second : Filter (List Char)} (parses : Parses text first)
    (parses' : Parses text second) : first = second := by
  have same : first.render ++ [] = second.render ++ [] := by rw [parses.2, parses'.2]
  exact (Filter.render_inj first second parses.1 parses'.1 _ _ same).1

structure Local (replaced : List Char → List Char) : Prop where
  nil : replaced [] = []
  plain : ∀ before after, '\x7b' ∉ before → replaced (before ++ after) = before ++ replaced after
  stopped : ∀ before after stop, isStop stop →
    replaced (before ++ stop :: after) = replaced before ++ stop :: replaced after

section Replaced

variable {replaced again : List Char → List Char}

theorem Local.comp (first : Local replaced) (second : Local again) : Local (again ∘ replaced) where
  nil := by simp [first.nil, second.nil]
  plain before after clean := by simp [first.plain before after clean, second.plain _ _ clean]
  stopped before after stop is := by simp [first.stopped before after stop is, second.stopped _ _ stop is]

theorem local_fillHole {index : Char} (digit : isHex index = true) (value : List Char) :
    Local (fillHole index value) := by
  refine ⟨by simp [fillHole, Text.replace], fun before after clean => ?_, fun before after stop is => ?_⟩
  · rw [fillHole_eq, symbols_append clean, spell_append, spell_chars, ← fillHole_eq]
  · have separates : Separates (fun c => c = index) stop := by
      refine ⟨?_, ?_, ?_⟩
      · rcases is with rfl | rfl | rfl <;> decide
      · rcases is with rfl | rfl | rfl <;> decide
      · have plain := isPlain_stop (isPlain_hex digit)
        simp only [decide_eq_false_iff_not]
        rintro rfl
        exact plain is
    simp only [fillHole_eq]
    rw [symbols_separated separates, spell_append, spell_char]

theorem Local.joined (lawful : Local replaced) {values : List (List Char)} (some : values ≠ [])
    (after : List Char) : replaced (joined values ++ ')' :: after) =
      SearchFilter.joined (values.map replaced) ++ ')' :: replaced after := by
  induction values using SearchFilter.joined.induct with
  | case1 => exact absurd rfl some
  | case2 value => exact lawful.stopped value after ')' (.inr (.inl rfl))
  | case3 value next rest ih =>
    rw [SearchFilter.joined, List.append_assoc, List.cons_append,
      lawful.stopped value _ '*' (.inr (.inr rfl)), ih (by simp)]
    simp [SearchFilter.joined]

theorem Local.parts (lawful : Local replaced) (item : Item (List Char)) :
    (item.map replaced).parts = item.parts.map replaced := by
  cases item <;> simp [Item.map, Item.parts, Item.values, lawful.nil]

theorem Item.head_map (f : List Char → List Char) (item : Item (List Char)) :
    (item.map f).head = item.head := by
  cases item <;> rfl

theorem Local.item (lawful : Local replaced) (item : Item (List Char)) (after : List Char) :
    replaced (item.render ++ ')' :: after) = (item.map replaced).render ++ ')' :: replaced after := by
  have clean : '\x7b' ∉ item.head ++ ['='] := by
    simp [item.head_notMem]
  have shape : item.render ++ ')' :: after = item.head ++ ['='] ++ (SearchFilter.joined item.parts ++ ')' :: after) := by
    simp [Item.render]
  rw [shape, lawful.plain _ _ clean, lawful.joined item.parts_ne_nil, ← lawful.parts]
  simp [Item.render, Item.head_map]

mutual

theorem Local.filter (lawful : Local replaced) : ∀ (filter : Filter (List Char)) (after : List Char),
    replaced (filter.render ++ after) = (filter.map replaced).render ++ replaced after
  | .and filters, after => by
    have inner := Local.filters lawful filters (')' :: after)
    have closing := lawful.plain [')'] after (by simp)
    have opening := lawful.plain ['(', '&'] (filters.render ++ ')' :: after) (by simp)
    simp only [List.cons_append, List.nil_append] at opening closing
    simp [Filter.render, Filter.map, Filter.mapItems, opening, inner, closing]
  | .or filters, after => by
    have inner := Local.filters lawful filters (')' :: after)
    have closing := lawful.plain [')'] after (by simp)
    have opening := lawful.plain ['(', '|'] (filters.render ++ ')' :: after) (by simp)
    simp only [List.cons_append, List.nil_append] at opening closing
    simp [Filter.render, Filter.map, Filter.mapItems, opening, inner, closing]
  | .not filter, after => by
    have inner := Local.filter lawful filter (')' :: after)
    have closing := lawful.plain [')'] after (by simp)
    have opening := lawful.plain ['(', '!'] (filter.render ++ ')' :: after) (by simp)
    simp only [List.cons_append, List.nil_append, Filter.map] at opening closing inner
    simp [Filter.render, Filter.map, Filter.mapItems, opening, inner, closing]
  | .item item, after => by
    have inner := lawful.item item after
    have opening := lawful.plain ['('] (item.render ++ ')' :: after) (by simp)
    simp only [List.cons_append, List.nil_append] at opening
    simp [Filter.render, Filter.map, Filter.mapItems, opening, inner]

theorem Local.filters (lawful : Local replaced) : ∀ (filters : Filters (List Char)) (after : List Char),
    replaced (filters.render ++ after) = (filters.mapItems (Item.map replaced)).render ++ replaced after
  | .one filter, after => by
    have inner := Local.filter lawful filter after
    simpa [Filters.render, Filters.mapItems, Filter.map] using inner
  | .more filter filters, after => by
    have first := Local.filter lawful filter (filters.render ++ after)
    have later := Local.filters lawful filters after
    simp only [Filter.map] at first
    simp [Filters.render, Filters.mapItems, first, later]

end

theorem Local.render (lawful : Local replaced) (filter : Filter (List Char)) :
    replaced filter.render = (filter.map replaced).render := by
  simpa [lawful.nil] using lawful.filter filter []

end Replaced

section Reading

variable {V W : Type} {f g : Item V → Item W}

mutual

theorem Filter.mapItems_eq_iff : ∀ filter : Filter V,
    filter.mapItems f = filter.mapItems g ↔ ∀ item ∈ filter.items, f item = g item
  | .and filters => by simpa [Filter.mapItems, Filter.items] using Filters.mapItems_eq_iff filters
  | .or filters => by simpa [Filter.mapItems, Filter.items] using Filters.mapItems_eq_iff filters
  | .not filter => by simpa [Filter.mapItems, Filter.items] using Filter.mapItems_eq_iff filter
  | .item item => by simp [Filter.mapItems, Filter.items]

theorem Filters.mapItems_eq_iff : ∀ filters : Filters V,
    filters.mapItems f = filters.mapItems g ↔ ∀ item ∈ filters.items, f item = g item
  | .one filter => by simpa [Filters.mapItems, Filters.items] using Filter.mapItems_eq_iff filter
  | .more filter filters => by
    simp [Filters.mapItems, Filters.items, Filter.mapItems_eq_iff filter, Filters.mapItems_eq_iff filters,
      or_imp, forall_and]

end

mutual

theorem Filter.mapItems_mapItems {U : Type} (h : Item W → Item U) : ∀ filter : Filter V,
    (filter.mapItems f).mapItems h = filter.mapItems (h ∘ f)
  | .and filters => by simp [Filter.mapItems, Filters.mapItems_mapItems h filters]
  | .or filters => by simp [Filter.mapItems, Filters.mapItems_mapItems h filters]
  | .not filter => by simp [Filter.mapItems, Filter.mapItems_mapItems h filter]
  | .item item => by simp [Filter.mapItems]

theorem Filters.mapItems_mapItems {U : Type} (h : Item W → Item U) : ∀ filters : Filters V,
    (filters.mapItems f).mapItems h = filters.mapItems (h ∘ f)
  | .one filter => by simp [Filters.mapItems, Filter.mapItems_mapItems h filter]
  | .more filter filters => by
    simp [Filters.mapItems, Filter.mapItems_mapItems h filter, Filters.mapItems_mapItems h filters]

end

mutual

theorem Filter.items_mapItems : ∀ filter : Filter V, (filter.mapItems f).items = filter.items.map f
  | .and filters => by simp [Filter.mapItems, Filter.items, Filters.items_mapItems filters]
  | .or filters => by simp [Filter.mapItems, Filter.items, Filters.items_mapItems filters]
  | .not filter => by simp [Filter.mapItems, Filter.items, Filter.items_mapItems filter]
  | .item item => by simp [Filter.mapItems, Filter.items]

theorem Filters.items_mapItems : ∀ filters : Filters V, (filters.mapItems f).items = filters.items.map f
  | .one filter => by simp [Filters.mapItems, Filters.items, Filter.items_mapItems filter]
  | .more filter filters => by
    simp [Filters.mapItems, Filters.items, Filter.items_mapItems filter, Filters.items_mapItems filters]

end

end Reading

section Read

mutual

theorem Filter.render_mapItems {f : Item (List Char) → Item (List Char)} (same : ∀ item, (f item).render = item.render) :
    ∀ filter : Filter (List Char), (filter.mapItems f).render = filter.render
  | .and filters => by simp [Filter.mapItems, Filter.render, Filters.render_mapItems same filters]
  | .or filters => by simp [Filter.mapItems, Filter.render, Filters.render_mapItems same filters]
  | .not filter => by simp [Filter.mapItems, Filter.render, Filter.render_mapItems same filter]
  | .item item => by simp [Filter.mapItems, Filter.render, same item]

theorem Filters.render_mapItems {f : Item (List Char) → Item (List Char)} (same : ∀ item, (f item).render = item.render) :
    ∀ filters : Filters (List Char), (filters.mapItems f).render = filters.render
  | .one filter => by simp [Filters.mapItems, Filters.render, Filter.render_mapItems same filter]
  | .more filter filters => by
    simp [Filters.mapItems, Filters.render, Filter.render_mapItems same filter,
      Filters.render_mapItems same filters]

end

theorem Item.read_eq (item : Item (List Char)) :
    (∃ attr, item = .substring attr [] [] [] ∧ item.read = .present attr) ∨
      (¬ item.Blank (· = []) ∧ item.read = item) := by
  by_cases blank : item.Blank (· = [])
  · cases item with
    | substring attr initial any final =>
      obtain ⟨rfl, rfl, rfl⟩ := blank
      exact .inl ⟨attr, rfl, rfl⟩
    | simple | present | extensible => exact blank.elim
  · refine .inr ⟨blank, ?_⟩
    unfold Item.read
    split
    next => exact absurd ⟨rfl, rfl, rfl⟩ blank
    next => rfl

theorem Item.render_read (item : Item (List Char)) : item.read.render = item.render := by
  rcases item.read_eq with ⟨attr, rfl, read⟩ | ⟨-, read⟩
  · rw [read]
    rfl
  · rw [read]

theorem Item.read_wellFormed {item : Item (List Char)}
    (encoded : ∀ value ∈ item.values, Encoded (chars value)) : item.read.WellFormed := by
  rcases item.read_eq with ⟨attr, rfl, read⟩ | ⟨solid, read⟩
  · rw [read]
    exact ⟨by simp [Item.values], fun blank => blank⟩
  · rw [read]
    exact ⟨encoded, solid⟩

-- What was replaced is read as meant when no substring assertion vanishes.
theorem Item.read_map_iff {replaced : List Char → List Char} {meant : List Char → List UInt8}
    (item : Item (List Char)) (encoded : ∀ value ∈ item.values, Encoded (chars (replaced value))) :
    (item.map replaced).read.map unescape = item.map meant ↔
      (∀ value ∈ item.values, unescape (replaced value) = meant value) ∧ ¬ item.Blank fun value => meant value = [] := by
  have nothing {value : List Char} (among : value ∈ item.values)
      (same : unescape (replaced value) = meant value) : meant value = [] ↔ replaced value = [] := by
    rw [← same, unescape_eq_nil (encoded value among)]
  cases item with
  | simple attr type value => simp [Item.map, Item.read, Item.values, Item.Blank]
  | present attr => simp [Item.map, Item.read, Item.values, Item.Blank]
  | extensible rule value => simp [Item.map, Item.read, Item.values, Item.Blank]
  | substring attr initial any final =>
    have values : (.substring attr initial any final : Item (List Char)).values =
      initial :: any ++ [final] := rfl
    by_cases blank : replaced initial = [] ∧ any = [] ∧ replaced final = []
    · obtain ⟨first, rfl, last⟩ := blank
      constructor
      · intro same
        simp [Item.map, Item.read, first, last] at same
      · rintro ⟨equal, solid⟩
        refine absurd ⟨?_, rfl, ?_⟩ solid
        · exact (nothing (by simp [values]) (equal initial (by simp [values]))).mpr first
        · exact (nothing (by simp [values]) (equal final (by simp [values]))).mpr last
    · have read : (Item.substring attr (replaced initial) (any.map replaced) (replaced final)).read =
          .substring attr (replaced initial) (any.map replaced) (replaced final) := by
        rcases Item.read_eq (.substring attr (replaced initial) (any.map replaced) (replaced final)) with
          ⟨other, shape, -⟩ | ⟨-, read⟩
        · exact absurd (by simpa using shape) (by tauto)
        · exact read
      have fields : (Item.map replaced (.substring attr initial any final)).read.map unescape =
          (Item.substring attr initial any final).map meant ↔
            ∀ value ∈ initial :: any ++ [final], unescape (replaced value) = meant value := by
        simp only [Item.map, read, Item.substring.injEq, true_and, List.map_map]
        simp [List.map_inj_left, or_imp, forall_and]
      rw [fields, values]
      refine (and_iff_left_of_imp fun equal => ?_).symm
      rintro ⟨first, rfl, last⟩
      refine blank ⟨?_, rfl, ?_⟩
      · exact (nothing (by simp [values]) (equal initial (by simp))).mp first
      · exact (nothing (by simp [values]) (equal final (by simp))).mp last

theorem parses_replaced {replaced : List Char → List Char} {meant : List Char → List UInt8}
    {template : List Char} {filter : Filter (List Char)} (lawful : Local replaced)
    (encodes : ∀ value, Encoded (chars value) → Encoded (chars (replaced value)))
    (parses : Parses template filter) :
    ∃ sent, (∀ other, Parses (replaced template) other ↔ other = sent) ∧
      (sent.map unescape = filter.map meant ↔ ∀ item ∈ filter.items,
        (∀ value ∈ item.values, unescape (replaced value) = meant value) ∧
          ¬ item.Blank fun value => meant value = []) := by
  obtain ⟨wellFormed, rfl⟩ := parses
  have encoded : ∀ item ∈ filter.items, ∀ value ∈ item.values, Encoded (chars (replaced value)) :=
    fun item among value inside => encodes value ((wellFormed item among).1 value inside)
  have here : Parses (replaced filter.render) (filter.mapItems fun item => (item.map replaced).read) := by
    constructor
    · intro item among
      rw [Filter.items_mapItems] at among
      obtain ⟨own, inside, rfl⟩ := List.mem_map.mp among
      apply Item.read_wellFormed
      intro value written
      have values : (own.map replaced).values = own.values.map replaced := by
        cases own <;> simp [Item.map, Item.values]
      rw [values] at written
      obtain ⟨old, former, rfl⟩ := List.mem_map.mp written
      exact encoded own inside old former
    · have read := Filter.render_mapItems Item.render_read (filter.map replaced)
      rw [Filter.map, Filter.mapItems_mapItems] at read
      exact read.trans (lawful.render filter).symm
  refine ⟨_, fun other => ⟨fun parses => parses.unique here, fun same => same ▸ here⟩, ?_⟩
  rw [Filter.map, Filter.map, Filter.mapItems_mapItems, Filter.mapItems_eq_iff]
  exact forall₂_congr fun item among => item.read_map_iff (encoded item among)

end Read

end Firefly.SearchFilter
