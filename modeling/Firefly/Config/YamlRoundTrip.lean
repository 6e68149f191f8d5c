import Firefly.Config.MergeOrder
import Firefly.Config.Placeholder
import Firefly.Shared.Text

set_option autoImplicit false

-- One pass over the lines: a stack of the open mappings by their indentation, and the sequence that
-- the last key without a value may be about to start.

namespace Firefly.Config.Yaml

def normalizeBreaks : Text → Text
  | '\r' :: '\n' :: rest => '\n' :: normalizeBreaks rest
  | c :: rest => c :: normalizeBreaks rest
  | [] => []

def isBlank (c : Char) : Bool := c = ' ' || c = '\t'

def stripComment : Option Char → Text → Text
  | _, [] => []
  | previous, c :: rest =>
    if c = '#' ∧ previous.all isBlank then [] else c :: stripComment (some c) rest

def scalar (s : Text) : Text :=
  if 2 ≤ s.length ∧ (s.head? = some '"' ∧ s.getLast? = some '"' ∨
      s.head? = some '\'' ∧ s.getLast? = some '\'') then
    s.tail.dropLast
  else s

structure Frame where
  indent : Nat
  key : Text

/-- The stack has the innermost mapping in front. -/
structure Scan where
  out : Flat
  stack : List Frame
  seqKey : Text
  seqIndent : Nat
  seqValues : List Text

def Scan.new : Scan where
  out := []
  stack := []
  seqKey := []
  seqIndent := 0
  seqValues := []

def Scan.flushSeq (scan : Scan) : Scan :=
  if scan.seqKey.isEmpty then scan
  else
    { scan with
      out := insertKey scan.out scan.seqKey ([','].intercalate scan.seqValues)
      seqKey := []
      seqValues := [] }

def yamlError (what : String) (line : Text) : ConfigError :=
  .other (what ++ ": " ++ Text.debugStr (String.ofList line))

section Scan

variable (toLowercase : Text → Text)

def Scan.keyLine (scan : Scan) (line body : Text) (indent : Nat) : Except ConfigError Scan :=
  let stack := scan.stack.dropWhile fun frame => indent ≤ frame.indent
  match splitOnce body with
  | (_, none) => .error (yamlError "malformed YAML" line)
  | (before, some after) =>
    let key := Text.trim before
    let value := Text.trim after
    let full := toLowercase
      (match stack.head? with
        | some parent => parent.key ++ '.' :: key
        | none => key)
    if value.isEmpty then
      -- A mapping starts, or a sequence; without either the key is flushed with an empty value.
      .ok
        { scan with
          stack := { indent, key := full } :: stack
          seqKey := full
          seqIndent := indent + 1
          seqValues := [] }
    else
      .ok
        { scan with
          out := insertKey scan.out full (scalar value)
          stack
          seqKey := []
          seqIndent := 0 }

def Scan.line (scan : Scan) (raw : Text) : Except ConfigError Scan :=
  let line := (stripComment none raw).rdropWhile isBlank
  if line.isEmpty then .ok scan
  else
    let indent := (line.takeWhile (· = ' ')).length
    let body := line.drop indent
    match body with
    | '-' :: ' ' :: item =>
      if scan.seqKey.isEmpty ∨ indent < scan.seqIndent then
        .error (yamlError "orphan sequence item" line)
      else .ok { scan with seqValues := scan.seqValues ++ [scalar (Text.trim item)] }
    | _ => scan.flushSeq.keyLine toLowercase line body indent

def parseYaml (text : Text) : Except ConfigError Flat := do
  let scan ← ((normalizeBreaks text).splitOn '\n').foldlM (Scan.line toLowercase) Scan.new
  return scan.flushSeq.out

end Scan

end Firefly.Config.Yaml

namespace Firefly.Config.Yaml

section Quotes

variable {c mark : Char} {text line rest : Text} {p : Char → Bool}

def quoted (text : Text) : Text := '"' :: text ++ ['"']

-- A `#` directly after a blank.
def Commented (text : Text) : Prop :=
  ∃ before blank after, text = before ++ blank :: '#' :: after ∧ isBlank blank = true

theorem stripComment_append {previous : Option Char} (clean : '#' ∉ line) (rest : Text) :
    stripComment previous (line ++ rest) = line ++ stripComment (line.getLast?.or previous) rest := by
  induction line generalizing previous with
  | nil => rfl
  | cons c line ih =>
    have here : c ≠ '#' := fun same => clean (by simp [same])
    have later : '#' ∉ line := fun among => clean (by simp [among])
    have last : (c :: line).getLast?.or previous = line.getLast?.or (some c) := by
      rw [List.getLast?_cons]
      cases line.getLast? <;> rfl
    simp [stripComment, here, ih later, last]

theorem stripComment_cases (first : Char) (text : Text) :
    (stripComment (some first) text = text ∧
      ∀ before after, text = before ++ '#' :: after →
        ∀ blank, (first :: before).getLast? = some blank → isBlank blank = false) ∨
    ∃ before after blank, text = before ++ '#' :: after ∧
      (first :: before).getLast? = some blank ∧ isBlank blank = true ∧
      stripComment (some first) text = before := by
  induction text generalizing first with
  | nil =>
    refine .inl ⟨rfl, fun before after split => ?_⟩
    simp at split
  | cons c text ih =>
    by_cases opens : c = '#' ∧ isBlank first = true
    · exact .inr ⟨[], text, first, by rw [opens.1]; rfl, rfl, opens.2, by simp [stripComment, opens]⟩
    · have step : stripComment (some first) (c :: text) = c :: stripComment (some c) text := by
        rw [stripComment, if_neg (by simpa using opens)]
      rcases ih c with ⟨same, clean⟩ | ⟨before, after, blank, split, last, white, stripped⟩
      · refine .inl ⟨by rw [step, same], fun before after split blank last => ?_⟩
        cases before with
        | nil =>
          obtain ⟨rfl, -⟩ := List.cons.inj split
          obtain rfl : first = blank := by simpa using last
          simpa using fun white => opens ⟨rfl, white⟩
        | cons head before =>
          obtain ⟨rfl, later⟩ := List.cons.inj split
          exact clean before after later blank (by simpa using last)
      · exact .inr ⟨c :: before, after, blank, by rw [split]; rfl, by simpa using last, white,
          by rw [step, stripped]⟩

theorem rdropWhile_append_dark (dark : p mark = false) (before rest : List Char) :
    (before ++ mark :: rest).rdropWhile p = before ++ mark :: rest.rdropWhile p := by
  induction rest using List.reverseRecOn with
  | nil =>
    rw [List.rdropWhile_concat_neg _ _ _ (by simp [dark])]
    rfl
  | append_singleton rest last ih =>
    have regroup : before ++ mark :: (rest ++ [last]) = (before ++ mark :: rest) ++ [last] := by simp
    rw [regroup, List.rdropWhile_concat, List.rdropWhile_concat, ih]
    split <;> simp

theorem trim_quote (text : Text) :
    Text.trim ('"' :: text) = '"' :: text.rdropWhile Text.isWhitespace := by
  rw [Text.trim, List.dropWhile_cons_of_neg (by decide)]
  exact rdropWhile_append_dark (by decide) [] text

theorem trim_blank_quote (text : Text) :
    Text.trim (' ' :: '"' :: text) = '"' :: text.rdropWhile Text.isWhitespace := by
  rw [Text.trim, List.dropWhile_cons_of_pos (by decide), ← trim_quote, Text.trim]

def afterQuote (text : Text) : Text := (stripComment (some '"') (text ++ ['"'])).rdropWhile isBlank

def stored (text : Text) : Text := scalar ('"' :: (afterQuote text).rdropWhile Text.isWhitespace)

theorem scalar_quoted (text : Text) : scalar (quoted text) = text := by
  have last : (quoted text).getLast? = some '"' := List.getLast?_concat
  rw [scalar, if_pos ⟨by simp [quoted], .inl ⟨rfl, last⟩⟩]
  exact List.dropLast_concat

theorem scalar_open (unquoted : '"' ∉ text) : scalar ('"' :: text) = '"' :: text := by
  rw [scalar, if_neg]
  rintro ⟨long, ⟨-, last⟩ | ⟨first, -⟩⟩
  · cases text with
    | nil => simp at long
    | cons c text =>
      rw [List.getLast?_cons_cons] at last
      exact unquoted (List.mem_of_getLast? last)
  · simp at first

theorem mem_of_mem_rdropWhile (among : c ∈ text.rdropWhile p) : c ∈ text :=
  (List.rdropWhile_prefix p _).subset among

theorem stored_cases (unquoted : '"' ∉ text) :
    (stored text = text ∧ ¬ Commented text) ∨ ('"' ∈ stored text ∧ Commented text) := by
  rcases stripComment_cases '"' (text ++ ['"']) with
    ⟨same, clean⟩ | ⟨before, after, blank, split, last, white, stripped⟩
  · left
    constructor
    · have closed : ∀ p : Char → Bool, p '"' = false → (text ++ ['"']).rdropWhile p = text ++ ['"'] :=
        fun p dark => List.rdropWhile_concat_neg p text '"' (Bool.eq_false_iff.mp dark)
      rw [stored, afterQuote, same, closed _ (by decide), closed _ (by decide)]
      exact scalar_quoted text
    · rintro ⟨before, blank, after, rfl, white⟩
      have ends : ('"' :: before ++ [blank]).getLast? = some blank := List.getLast?_concat
      have dark := clean (before ++ [blank]) (after ++ ['"']) (by simp) blank ends
      rw [white] at dark
      cases dark
  · right
    have inside : ∃ rest, text = before ++ '#' :: rest := by
      rcases after.eq_nil_or_concat with rfl | ⟨rest, final, rfl⟩
      · have ends := congrArg List.getLast? split
        simp at ends
      · refine ⟨rest, ?_⟩
        have split : text ++ ['"'] = (before ++ '#' :: rest) ++ [final] := by simpa using split
        exact (List.append_inj' split rfl).1
    obtain ⟨rest, rfl⟩ := inside
    constructor
    · rw [stored, afterQuote, stripped, scalar_open]
      · simp
      · intro among
        exact unquoted (by simp [mem_of_mem_rdropWhile (mem_of_mem_rdropWhile among)])
    · rcases before.eq_nil_or_concat with rfl | ⟨front, final, rfl⟩
      · obtain rfl : '"' = blank := by simpa using last
        cases white
      · have ends : ('"' :: front ++ [final]).getLast? = some final := List.getLast?_concat
        obtain rfl : final = blank := Option.some.inj (ends.symm.trans (by simpa using last))
        exact ⟨front, final, rest, by simp, white⟩

end Quotes

inductive Mapping where
  | nil
  | leaf (key text : Text) (rest : Mapping)
  | sequence (key : Text) (step : Nat) (first : Text) (items : List Text) (rest : Mapping)
  | mapping (key : Text) (step : Nat) (inner rest : Mapping)

def pad (indent : Nat) : Text := List.replicate indent ' '

def itemLine (indent : Nat) (text : Text) : Text := pad indent ++ "- ".toList ++ quoted text

def keyLine (indent : Nat) (key : Text) : Text := pad indent ++ key ++ [':']

def leafLine (indent : Nat) (key text : Text) : Text := pad indent ++ key ++ ": ".toList ++ quoted text

def lines : Nat → Mapping → List Text
  | _, .nil => []
  | indent, .leaf key text rest => leafLine indent key text :: lines indent rest
  | indent, .sequence key step first items rest =>
    keyLine indent key :: ((first :: items).map (itemLine (indent + step + 1)) ++ lines indent rest)
  | indent, .mapping key step inner rest =>
    keyLine indent key :: (lines (indent + step + 1) inner ++ lines indent rest)

def render (document : Mapping) : Text := (lines 0 document).flatMap (· ++ ['\n'])

def pathOf (parent : Option Text) (key : Text) : Text :=
  match parent with
  | some path => path ++ '.' :: key
  | none => key

-- The paths in the order of the document, each with the texts that make up its value: none for a
-- mapping.
def assignments : Option Text → Mapping → List (Text × List Text)
  | _, .nil => []
  | parent, .leaf key text rest => (pathOf parent key, [text]) :: assignments parent rest
  | parent, .sequence key _ first items rest =>
    (pathOf parent key, first :: items) :: assignments parent rest
  | parent, .mapping key _ inner rest =>
    (pathOf parent key, []) ::
      (assignments (some (pathOf parent key)) inner ++ assignments parent rest)

def put (value : Text → Text) (out : Flat) (assigned : Text × List Text) : Flat :=
  insertKey out assigned.1 ([','].intercalate (assigned.2.map value))

def flatten (document : Mapping) : Flat := (assignments none document).foldl (put id) []

/-- Lower-casing leaves a text alone that has none of the characters it changes. -/
structure CaseMapping where
  toLowercase : Text → Text
  changes : Char → Bool
  fixed : ∀ text, (∀ c ∈ text, changes c = false) → toLowercase text = text
  dot : changes '.' = false

section Documents

variable (mapping : CaseMapping)

def Key (key : Text) : Prop :=
  key ≠ [] ∧ ∀ c ∈ key, c ≠ ':' ∧ c ≠ '#' ∧ c ≠ '"' ∧ c ≠ '\'' ∧ Text.isWhitespace c = false ∧
    mapping.changes c = false

def SingleLine (text : Text) : Prop := ∀ c ∈ text, c ≠ '"' ∧ c ≠ '\n' ∧ c ≠ '\r'

def Mapping.WellFormed : Mapping → Prop
  | .nil => True
  | .leaf key text rest => Key mapping key ∧ SingleLine text ∧ rest.WellFormed
  | .sequence key _ first items rest =>
    Key mapping key ∧ (∀ text ∈ first :: items, SingleLine text) ∧ rest.WellFormed
  | .mapping key _ inner rest => Key mapping key ∧ inner.WellFormed ∧ rest.WellFormed

end Documents

section Lines

variable {mapping : CaseMapping} {indent : Nat} {key text rest : Text} {scan : Scan}

theorem hash_notMem_pad (indent : Nat) : '#' ∉ pad indent := fun among => by
  cases List.eq_of_mem_replicate among

theorem takeWhile_pad (indent : Nat) {c : Char} (dark : c ≠ ' ') (rest : Text) :
    (pad indent ++ c :: rest).takeWhile (· = ' ') = pad indent := by
  induction indent with
  | zero => simp [pad, dark]
  | succ indent ih => simpa [pad, List.replicate_succ] using ih

theorem drop_pad (indent : Nat) (rest : Text) : (pad indent ++ rest).drop indent = rest :=
  List.drop_left' List.length_replicate

theorem line_stripped (front : Text) (clean : '#' ∉ front) (text : Text) :
    (stripComment none (front ++ quoted text)).rdropWhile isBlank = front ++ '"' :: afterQuote text := by
  have regroup : front ++ quoted text = (front ++ ['"']) ++ (text ++ ['"']) := by simp [quoted]
  rw [regroup, stripComment_append (by simp [clean]), List.getLast?_concat, Option.some_or,
    List.append_assoc, List.singleton_append, rdropWhile_append_dark (by decide)]
  rfl

theorem line_kept {front : Text} {c : Char} (clean : '#' ∉ front) (other : c ≠ '#')
    (dark : isBlank c = false) :
    (stripComment none (front ++ [c])).rdropWhile isBlank = front ++ [c] := by
  have unmarked : '#' ∉ front ++ [c] := by simp [clean, Ne.symm other]
  have whole : stripComment none (front ++ [c] ++ []) = front ++ [c] ++ [] :=
    stripComment_append unmarked []
  rw [List.append_nil] at whole
  rw [whole]
  exact List.rdropWhile_concat_neg isBlank front c (Bool.eq_false_iff.mp dark)

theorem line_of_key (keyed : Key mapping key) {raw after : Text}
    (stripped : (stripComment none raw).rdropWhile isBlank = pad indent ++ (key ++ ':' :: after)) :
    scan.line mapping.toLowercase raw =
      scan.flushSeq.keyLine mapping.toLowercase (pad indent ++ (key ++ ':' :: after))
        (key ++ ':' :: after) indent := by
  obtain ⟨c, key, rfl⟩ := List.exists_cons_of_ne_nil keyed.1
  have dark : ∀ d ∈ c :: key, Text.isWhitespace d = false := fun d among => (keyed.2 d among).2.2.2.2.1
  have first : c ≠ ' ' := fun same => by simpa [same, Text.isWhitespace] using dark c (by simp)
  have measured : ((pad indent ++ (c :: key ++ ':' :: after)).takeWhile (· = ' ')).length = indent := by
    rw [List.cons_append, takeWhile_pad indent first]
    exact List.length_replicate
  have present : (pad indent ++ (c :: key ++ ':' :: after)).isEmpty = false := by simp
  simp only [Scan.line, stripped, present, measured, drop_pad, Bool.false_eq_true, if_false]
  -- A dash is followed by the rest of the key or by the colon, never by a blank.
  split
  · rename_i item dashed
    cases key with
    | nil => simp at dashed
    | cons d key =>
      obtain ⟨-, rfl, -⟩ : c = '-' ∧ d = ' ' ∧ _ := by simpa using dashed
      exact absurd (dark ' ' (by simp)) (by decide)
  · rfl

theorem splitOnce_key (keyed : Key mapping key) (after : Text) :
    splitOnce (key ++ ':' :: after) = (key, some after) := by
  have plain : ∀ c ∈ key, decide (c ≠ ':') = true := fun c among => decide_eq_true (keyed.2 c among).1
  have dropped : (key ++ ':' :: after).dropWhile (· ≠ ':') = ':' :: after := by
    rw [List.dropWhile_append_of_pos plain, List.dropWhile_cons_of_neg (by simp)]
  have taken : (key ++ ':' :: after).takeWhile (· ≠ ':') = key := by
    rw [List.takeWhile_append_of_pos plain, List.takeWhile_cons_of_neg (by simp), List.append_nil]
  rw [splitOnce, dropped]
  exact Prod.ext taken rfl

theorem trim_key (keyed : Key mapping key) : Text.trim key = key :=
  Text.trim_of_dark fun c among => (keyed.2 c among).2.2.2.2.1

theorem hash_notMem_key (keyed : Key mapping key) : '#' ∉ key := fun among =>
  (keyed.2 '#' among).2.1 rfl

def fullKey (stack : List Frame) (key : Text) : Text :=
  pathOf (stack.head?.map (·.key)) key

def openAt (indent : Nat) (stack : List Frame) : List Frame :=
  stack.dropWhile fun frame => indent ≤ frame.indent

theorem keyLine_eq (keyed : Key mapping key) (scan : Scan) (line after : Text) (indent : Nat) :
    scan.keyLine mapping.toLowercase line (key ++ ':' :: after) indent =
      let stack := openAt indent scan.stack
      let path := mapping.toLowercase (fullKey stack key)
      if (Text.trim after).isEmpty then
        .ok
          { scan with
            stack := { indent, key := path } :: stack
            seqKey := path
            seqIndent := indent + 1
            seqValues := [] }
      else
        .ok
          { scan with
            out := insertKey scan.out path (scalar (Text.trim after))
            stack
            seqKey := []
            seqIndent := 0 } := by
  rw [Scan.keyLine, splitOnce_key keyed]
  simp only [trim_key keyed, openAt, fullKey]
  generalize scan.stack.dropWhile (fun frame => decide (indent ≤ frame.indent)) = stack
  cases stack <;> rfl

theorem line_leaf (keyed : Key mapping key) (scan : Scan) (indent : Nat) (text : Text) :
    scan.line mapping.toLowercase (leafLine indent key text) =
      .ok
        { scan.flushSeq with
          out := insertKey scan.flushSeq.out
            (mapping.toLowercase (fullKey (openAt indent scan.flushSeq.stack) key)) (stored text)
          stack := openAt indent scan.flushSeq.stack
          seqKey := []
          seqIndent := 0 } := by
  have stripped : (stripComment none (leafLine indent key text)).rdropWhile isBlank =
      pad indent ++ (key ++ ':' :: ' ' :: '"' :: afterQuote text) := by
    have clean : '#' ∉ pad indent ++ key ++ ": ".toList := by
      simp [hash_notMem_pad, hash_notMem_key keyed]
    rw [leafLine, line_stripped _ clean]
    simp
  rw [line_of_key keyed stripped, keyLine_eq keyed, trim_blank_quote]
  rfl

theorem line_key (keyed : Key mapping key) (scan : Scan) (indent : Nat) :
    scan.line mapping.toLowercase (keyLine indent key) =
      let path := mapping.toLowercase (fullKey (openAt indent scan.flushSeq.stack) key)
      .ok
        { scan.flushSeq with
          stack := { indent, key := path } :: openAt indent scan.flushSeq.stack
          seqKey := path
          seqIndent := indent + 1
          seqValues := [] } := by
  have stripped : (stripComment none (keyLine indent key)).rdropWhile isBlank =
      pad indent ++ (key ++ ':' :: []) := by
    have clean : '#' ∉ pad indent ++ key := by simp [hash_notMem_pad, hash_notMem_key keyed]
    rw [keyLine, line_kept clean (by decide) (by decide), List.append_assoc]
  rw [line_of_key keyed stripped, keyLine_eq keyed]
  rfl

theorem line_item {scan : Scan} (pending : scan.seqKey ≠ []) (deep : scan.seqIndent ≤ indent)
    (text : Text) :
    scan.line mapping.toLowercase (itemLine indent text) =
      .ok { scan with seqValues := scan.seqValues ++ [stored text] } := by
  have stripped : (stripComment none (itemLine indent text)).rdropWhile isBlank =
      pad indent ++ '-' :: ' ' :: '"' :: afterQuote text := by
    have clean : '#' ∉ pad indent ++ "- ".toList := by simp [hash_notMem_pad]
    rw [itemLine, line_stripped _ clean]
    simp
  have measured : ((pad indent ++ '-' :: ' ' :: '"' :: afterQuote text).takeWhile (· = ' ')).length =
      indent := by
    rw [takeWhile_pad indent (by decide)]
    exact List.length_replicate
  have present : (pad indent ++ '-' :: ' ' :: '"' :: afterQuote text).isEmpty = false := by simp
  have going : ¬ (scan.seqKey.isEmpty = true ∨ indent < scan.seqIndent) := by
    rintro (empty | shallow)
    · exact pending (List.isEmpty_iff.mp empty)
    · omega
  simp only [Scan.line, stripped, present, measured, drop_pad, Bool.false_eq_true, if_false, going,
    trim_quote]
  rfl

end Lines

section Runs

variable {mapping : CaseMapping} {indent : Nat} {base : List Frame} {key : Text} {scan : Scan}

@[simp] theorem flushSeq_stack (scan : Scan) : scan.flushSeq.stack = scan.stack := by
  rw [Scan.flushSeq]
  split <;> rfl

theorem flushSeq_idle (idle : scan.seqKey = []) : scan.flushSeq = scan := by
  simp [Scan.flushSeq, idle]

theorem flushSeq_pending (pending : scan.seqKey ≠ []) :
    scan.flushSeq.out = insertKey scan.out scan.seqKey ([','].intercalate scan.seqValues) := by
  simp [Scan.flushSeq, pending]

def Within (indent : Nat) (base stack : List Frame) : Prop :=
  (∀ frame ∈ base.head?, frame.indent < indent) ∧
    ∃ inner, stack = inner ++ base ∧ ∀ frame ∈ inner, indent ≤ frame.indent

theorem Within.openAt {stack : List Frame} (within : Within indent base stack) :
    openAt indent stack = base := by
  obtain ⟨outside, inner, rfl, inside⟩ := within
  rw [Yaml.openAt, List.dropWhile_append_of_pos fun frame among => decide_eq_true (inside frame among)]
  cases base with
  | nil => rfl
  | cons frame base =>
    have below := outside frame rfl
    rw [List.dropWhile_cons_of_neg (by simpa using below)]

theorem within_base (outside : ∀ frame ∈ base.head?, frame.indent < indent) : Within indent base base :=
  ⟨outside, [], rfl, by simp⟩

theorem Within.nested {stack : List Frame} {step : Nat} {path : Text}
    (outside : ∀ frame ∈ base.head?, frame.indent < indent)
    (within : Within (indent + step + 1) ({ indent, key := path } :: base) stack) :
    Within indent base stack := by
  obtain ⟨-, inner, rfl, inside⟩ := within
  refine ⟨outside, inner ++ [{ indent, key := path }], by simp, fun frame among => ?_⟩
  rcases List.mem_append.mp among with deep | own
  · have := inside frame deep
    omega
  · obtain rfl := List.mem_singleton.mp own
    exact le_rfl

def Low (mapping : CaseMapping) (text : Text) : Prop := ∀ c ∈ text, mapping.changes c = false

theorem Key.low (keyed : Key mapping key) : Low mapping key :=
  fun c among => (keyed.2 c among).2.2.2.2.2

theorem low_pathOf {parent : Option Text} (low : ∀ path ∈ parent, Low mapping path)
    (keyed : Key mapping key) : Low mapping (pathOf parent key) := by
  cases parent with
  | none => exact keyed.low
  | some path =>
    intro c among
    rcases List.mem_append.mp among with above | own
    · exact low path rfl c above
    · rcases List.mem_cons.mp own with rfl | own
      · exact mapping.dot
      · exact keyed.low c own

theorem pathOf_ne_nil (parent : Option Text) (keyed : Key mapping key) : pathOf parent key ≠ [] := by
  cases parent with
  | none => exact keyed.1
  | some path => simp [pathOf]

variable (mapping indent) in
theorem run_items (items : List Text) (scan : Scan) (pending : scan.seqKey ≠ [])
    (deep : scan.seqIndent ≤ indent) :
    (items.map (itemLine indent)).foldlM (Scan.line mapping.toLowercase) scan =
      .ok { scan with seqValues := scan.seqValues ++ items.map stored } := by
  induction items generalizing scan with
  | nil =>
    rw [List.map_nil, List.map_nil, List.append_nil]
    rfl
  | cons item items ih =>
    rw [List.map_cons, List.foldlM_cons, line_item pending deep item]
    change List.foldlM _ _ _ = _
    rw [ih { scan with seqValues := scan.seqValues ++ [stored item] } pending deep]
    simp

theorem run_append {first second : List Text} {scan middle : Scan}
    (ran : first.foldlM (Scan.line mapping.toLowercase) scan = .ok middle) :
    (first ++ second).foldlM (Scan.line mapping.toLowercase) scan =
      second.foldlM (Scan.line mapping.toLowercase) middle := by
  rw [List.foldlM_append, ran]
  rfl

theorem fullKey_path {base : List Frame} {parent : Option Text}
    (named : base.head?.map (·.key) = parent) (low : ∀ path ∈ parent, Low mapping path)
    (keyed : Key mapping key) : mapping.toLowercase (fullKey base key) = pathOf parent key := by
  rw [fullKey, named, mapping.fixed _ (low_pathOf low keyed)]

theorem openAt_flushSeq {scan : Scan} {indent : Nat} {base : List Frame}
    (within : Within indent base scan.stack) : openAt indent scan.flushSeq.stack = base := by
  rw [flushSeq_stack, Within.openAt within]

theorem run_lines (document : Mapping) (scan : Scan) (indent : Nat) (base : List Frame)
    (parent : Option Text) (wellFormed : document.WellFormed mapping)
    (within : Within indent base scan.stack) (named : base.head?.map (·.key) = parent)
    (low : ∀ path ∈ parent, Low mapping path) :
    ∃ final, (lines indent document).foldlM (Scan.line mapping.toLowercase) scan = .ok final ∧
      final.flushSeq.out = (assignments parent document).foldl (put stored) scan.flushSeq.out ∧
      Within indent base final.stack := by
  induction document generalizing indent base parent scan with
  | nil => exact ⟨scan, rfl, rfl, within⟩
  | leaf key text rest ih =>
    obtain ⟨keyed, -, wellFormed⟩ := wellFormed
    rw [lines, List.foldlM_cons, line_leaf keyed, openAt_flushSeq within,
      fullKey_path named low keyed]
    let next : Scan :=
      { scan.flushSeq with
        out := insertKey scan.flushSeq.out (pathOf parent key) (stored text)
        stack := base
        seqKey := []
        seqIndent := 0 }
    change ∃ final, List.foldlM _ next _ = _ ∧ _
    obtain ⟨final, ran, out, within⟩ := ih next indent base parent wellFormed (within_base within.1)
      named low
    refine ⟨final, ran, ?_, within⟩
    rw [out, flushSeq_idle rfl, assignments, List.foldl_cons]
    simp [put, next]
  | sequence key step first items rest ih =>
    obtain ⟨keyed, -, wellFormed⟩ := wellFormed
    have pending := pathOf_ne_nil parent keyed
    let started : Scan :=
      { scan.flushSeq with
        stack := { indent, key := pathOf parent key } :: base
        seqKey := pathOf parent key
        seqIndent := indent + 1
        seqValues := [] }
    have collected := run_items mapping (indent + step + 1) (first :: items) started
      pending (by change indent + 1 ≤ _; omega)
    rw [lines, List.foldlM_cons, line_key keyed, openAt_flushSeq within,
      fullKey_path named low keyed]
    change ∃ final, List.foldlM _ started _ = _ ∧ _
    rw [run_append collected]
    have closing : Within indent base started.stack :=
      ⟨within.1, [{ indent, key := pathOf parent key }], rfl, by simp⟩
    obtain ⟨final, ran, out, within⟩ := ih
      { started with seqValues := started.seqValues ++ (first :: items).map stored } indent base parent
      wellFormed closing named low
    refine ⟨final, ran, ?_, within⟩
    rw [out, flushSeq_pending pending, assignments, List.foldl_cons]
    rfl
  | mapping key step inner rest inner_ih rest_ih =>
    obtain ⟨keyed, inner_formed, wellFormed⟩ := wellFormed
    have pending := pathOf_ne_nil parent keyed
    let started : Scan :=
      { scan.flushSeq with
        stack := { indent, key := pathOf parent key } :: base
        seqKey := pathOf parent key
        seqIndent := indent + 1
        seqValues := [] }
    rw [lines, List.foldlM_cons, line_key keyed, openAt_flushSeq within,
      fullKey_path named low keyed]
    change ∃ final, List.foldlM _ started _ = _ ∧ _
    have deeper : ∀ frame ∈ ({ indent, key := pathOf parent key } :: base : List Frame).head?,
        frame.indent < indent + step + 1 := by
      rintro frame ⟨⟩
      change indent < _
      omega
    obtain ⟨middle, inner_ran, inner_out, inner_within⟩ := inner_ih started (indent + step + 1)
      ({ indent, key := pathOf parent key } :: base) (some (pathOf parent key)) inner_formed
      (within_base deeper) rfl (by
        rintro _ ⟨⟩
        exact low_pathOf low keyed)
    rw [run_append inner_ran]
    obtain ⟨final, ran, out, within⟩ := rest_ih middle indent base parent wellFormed
      (inner_within.nested within.1) named low
    refine ⟨final, ran, ?_, within⟩
    rw [out, inner_out, flushSeq_pending pending, assignments, List.foldl_cons, List.foldl_append]
    rfl

end Runs

section Text

variable {mapping : CaseMapping} {indent : Nat} {key text : Text}

def Unbroken (text : Text) : Prop := ∀ c ∈ text, c ≠ '\n' ∧ c ≠ '\r'

theorem Unbroken.append {first second : Text} (one : Unbroken first) (other : Unbroken second) :
    Unbroken (first ++ second) := fun c among => (List.mem_append.mp among).elim (one c) (other c)

theorem unbroken_pad (indent : Nat) : Unbroken (pad indent) := fun c among => by
  rw [List.eq_of_mem_replicate among]
  decide

theorem Key.unbroken (keyed : Key mapping key) : Unbroken key := by
  intro c among
  have dark := (keyed.2 c among).2.2.2.2.1
  constructor <;> rintro rfl <;> exact absurd dark (by decide)

theorem SingleLine.quoted (single : SingleLine text) : Unbroken (quoted text) := by
  intro c among
  rcases List.mem_cons.mp among with rfl | inside
  · decide
  · rcases List.mem_append.mp inside with inside | closing
    · exact (single c inside).2
    · obtain rfl := List.mem_singleton.mp closing
      decide

theorem lines_unbroken (document : Mapping) (indent : Nat) (wellFormed : document.WellFormed mapping) :
    ∀ line ∈ lines indent document, Unbroken line := by
  induction document generalizing indent with
  | nil => simp [lines]
  | leaf key text rest ih =>
    obtain ⟨keyed, single, wellFormed⟩ := wellFormed
    intro line among
    rcases List.mem_cons.mp among with rfl | later
    · exact (((unbroken_pad indent).append keyed.unbroken).append (by simp [Unbroken])).append single.quoted
    · exact ih indent wellFormed line later
  | sequence key step first items rest ih =>
    obtain ⟨keyed, singles, wellFormed⟩ := wellFormed
    intro line among
    rcases List.mem_cons.mp among with rfl | later
    · exact ((unbroken_pad indent).append keyed.unbroken).append (by simp [Unbroken])
    · rcases List.mem_append.mp later with item | later
      · obtain ⟨text, inside, rfl⟩ := List.mem_map.mp item
        exact ((unbroken_pad _).append (by simp [Unbroken])).append (singles text inside).quoted
      · exact ih indent wellFormed line later
  | mapping key step inner rest inner_ih rest_ih =>
    obtain ⟨keyed, inner_formed, wellFormed⟩ := wellFormed
    intro line among
    rcases List.mem_cons.mp among with rfl | later
    · exact ((unbroken_pad indent).append keyed.unbroken).append (by simp [Unbroken])
    · rcases List.mem_append.mp later with nested | later
      · exact inner_ih _ inner_formed line nested
      · exact rest_ih indent wellFormed line later

theorem normalizeBreaks_of_no_return (plain : '\r' ∉ text) : normalizeBreaks text = text := by
  induction text with
  | nil => rfl
  | cons c text ih =>
    rw [normalizeBreaks]
    · rw [ih (List.not_mem_of_not_mem_cons plain)]
    · rintro rest rfl -
      exact List.ne_of_not_mem_cons plain rfl

theorem flatMap_lines (all : List Text) :
    all.flatMap (· ++ ['\n']) = ['\n'].intercalate (all ++ [[]]) := by
  induction all with
  | nil => rfl
  | cons line all ih =>
    rw [List.flatMap_cons, ih, List.cons_append, List.intercalate_cons_of_ne_nil (by simp)]

theorem split_render (document : Mapping) (wellFormed : document.WellFormed mapping) :
    (normalizeBreaks (render document)).splitOn '\n' = lines 0 document ++ [[]] := by
  have unbroken := lines_unbroken document 0 wellFormed
  have plain : '\r' ∉ render document := by
    intro among
    obtain ⟨line, inside, own⟩ := List.mem_flatMap.mp among
    rcases List.mem_append.mp own with own | closing
    · exact (unbroken line inside _ own).2 rfl
    · simp at closing
  rw [normalizeBreaks_of_no_return plain, render, flatMap_lines]
  refine List.splitOn_intercalate '\n' (fun line among => ?_) (by simp)
  rcases List.mem_append.mp among with inside | last
  · exact fun broken => (unbroken line inside _ broken).1 rfl
  · obtain rfl := List.mem_singleton.mp last
    simp

theorem parse_render (document : Mapping) (wellFormed : document.WellFormed mapping) :
    parseYaml mapping.toLowercase (render document) =
      .ok ((assignments none document).foldl (put stored) []) := by
  obtain ⟨final, ran, out, -⟩ := run_lines document Scan.new 0 [] none wellFormed
    (within_base (by simp)) rfl (by simp)
  rw [parseYaml, split_render document wellFormed, run_append ran]
  change Except.ok final.flushSeq.out = _
  rw [out]
  rfl

end Text

section RoundTrip

variable {mapping : CaseMapping} {value : Text → Text} {path : Text}
  {assigned before after : List (Text × List Text)} {out : Flat} {c : Char}

theorem fetch_last (out : Flat) (before : List (Text × List Text)) (leaves : List Text)
    (last : ∀ later ∈ after, later.1 ≠ path) :
    fetch ((before ++ (path, leaves) :: after).foldl (put value) out) path =
      some ([','].intercalate (leaves.map value)) := by
  have untouched : ∀ out : Flat, fetch (after.foldl (put value) out) path = fetch out path := by
    induction after with
    | nil => exact fun _ => rfl
    | cons later after ih =>
      intro out
      rw [List.foldl_cons, ih fun entry among => last entry (List.mem_cons_of_mem _ among), put,
        fetch_insertKey, if_neg (Ne.symm (last later List.mem_cons_self))]
  rw [List.foldl_append, List.foldl_cons, untouched, put, fetch_insertKey, if_pos rfl]

theorem fetch_unassigned (absent : ∀ entry ∈ assigned, entry.1 ≠ path) (out : Flat) :
    fetch (assigned.foldl (put value) out) path = fetch out path := by
  induction assigned generalizing out with
  | nil => rfl
  | cons entry assigned ih =>
    rw [List.foldl_cons, ih fun later among => absent later (List.mem_cons_of_mem _ among), put,
      fetch_insertKey, if_neg (Ne.symm (absent entry List.mem_cons_self))]

theorem exists_last (path : Text) (assigned : List (Text × List Text)) :
    (∀ entry ∈ assigned, entry.1 ≠ path) ∨
      ∃ before leaves after, assigned = before ++ (path, leaves) :: after ∧
        ∀ later ∈ after, later.1 ≠ path := by
  induction assigned with
  | nil => exact .inl (by simp)
  | cons entry assigned ih =>
    rcases ih with absent | ⟨before, leaves, after, rfl, last⟩
    · by_cases own : entry.1 = path
      · exact .inr ⟨[], entry.2, assigned, by rw [← own]; rfl, absent⟩
      · exact .inl fun other among => (List.mem_cons.mp among).elim (· ▸ own) (absent other)
    · exact .inr ⟨entry :: before, leaves, after, rfl, last⟩

theorem mem_intercalate {texts : List Text} : c ∈ [','].intercalate texts →
    c = ',' ∨ ∃ text ∈ texts, c ∈ text := by
  induction texts with
  | nil => simp
  | cons text texts ih =>
    intro among
    cases texts with
    | nil => exact .inr ⟨text, by simp, by simpa using among⟩
    | cons next texts =>
      rw [List.intercalate_cons_cons] at among
      rcases List.mem_append.mp among with first | later
      · rcases List.mem_append.mp first with own | comma
        · exact .inr ⟨text, by simp, own⟩
        · exact .inl (List.mem_singleton.mp comma)
      · rcases ih later with comma | ⟨found, inside, own⟩
        · exact .inl comma
        · exact .inr ⟨found, List.mem_cons_of_mem _ inside, own⟩

theorem mem_intercalate_of_mem {text : Text} {texts : List Text} (inside : text ∈ texts) (among : c ∈ text) :
    c ∈ [','].intercalate texts := by
  induction texts with
  | nil => simp at inside
  | cons first texts ih =>
    cases texts with
    | nil => simpa [List.mem_singleton.mp inside] using among
    | cons next texts =>
      rw [List.intercalate_cons_cons]
      rcases List.mem_cons.mp inside with rfl | later
      · simp [among]
      · exact List.mem_append_right _ (ih later)

theorem stored_value_iff {leaves : List Text} (single : ∀ text ∈ leaves, SingleLine text) :
    [','].intercalate (leaves.map stored) = [','].intercalate (leaves.map id) ↔
      ∀ text ∈ leaves, ¬ Commented text := by
  have unquoted : ∀ text ∈ leaves, '"' ∉ text := fun text among quote => (single text among _ quote).1 rfl
  constructor
  · intro same text among commented
    rcases stored_cases (unquoted text among) with ⟨-, clean⟩ | ⟨quote, -⟩
    · exact clean commented
    · have inside := mem_intercalate_of_mem (List.mem_map_of_mem (f := stored) among) quote
      rw [same, List.map_id] at inside
      rcases mem_intercalate inside with comma | ⟨found, also, own⟩
      · cases comma
      · exact unquoted found also own
  · intro clean
    have kept : leaves.map stored = leaves.map id := List.map_congr_left fun text among => by
      rcases stored_cases (unquoted text among) with ⟨same, -⟩ | ⟨-, commented⟩
      · exact same
      · exact absurd commented (clean text among)
    rw [kept]

theorem assignments_single {document : Mapping} (wellFormed : document.WellFormed mapping)
    (parent : Option Text) :
    ∀ entry ∈ assignments parent document, ∀ text ∈ entry.2, SingleLine text := by
  induction document generalizing parent with
  | nil => simp [assignments]
  | leaf key text rest ih =>
    obtain ⟨-, single, wellFormed⟩ := wellFormed
    intro entry among
    rcases List.mem_cons.mp among with rfl | later
    · simpa using single
    · exact ih wellFormed parent entry later
  | sequence key step first items rest ih =>
    obtain ⟨-, singles, wellFormed⟩ := wellFormed
    intro entry among
    rcases List.mem_cons.mp among with rfl | later
    · exact singles
    · exact ih wellFormed parent entry later
  | mapping key step inner rest inner_ih rest_ih =>
    obtain ⟨-, inner_formed, wellFormed⟩ := wellFormed
    intro entry among
    rcases List.mem_cons.mp among with rfl | later
    · simp
    · rcases List.mem_append.mp later with nested | later
      · exact inner_ih inner_formed _ entry nested
      · exact rest_ih wellFormed parent entry later

theorem round_trip_exactly (mapping : CaseMapping) (document : Mapping)
    (wellFormed : document.WellFormed mapping) :
    (∃ flat, parseYaml mapping.toLowercase (render document) = .ok flat ∧
      ∀ path, fetch flat path = fetch (flatten document) path) ↔
    ∀ before path leaves after, assignments none document = before ++ (path, leaves) :: after →
      (∀ later ∈ after, later.1 ≠ path) → ∀ text ∈ leaves, ¬ Commented text := by
  have single := assignments_single wellFormed none
  rw [parse_render document wellFormed]
  constructor
  · rintro ⟨flat, scanned, same⟩ before path leaves after split last
    obtain rfl := Except.ok.inj scanned
    have here := same path
    rw [flatten, split, fetch_last [] before leaves last, fetch_last [] before leaves last] at here
    exact (stored_value_iff (single (path, leaves) (by simp [split]))).mp (Option.some.inj here)
  · intro clean
    refine ⟨_, rfl, fun path => ?_⟩
    rcases exists_last path (assignments none document) with absent | ⟨before, leaves, after, split, last⟩
    · rw [flatten, fetch_unassigned absent, fetch_unassigned absent]
    · have kept := (stored_value_iff (single (path, leaves) (by simp [split]))).mpr
        (clean before path leaves after split last)
      rw [flatten, split, fetch_last [] before leaves last, fetch_last [] before leaves last, kept]

def asciiCase : CaseMapping where
  toLowercase := fun text => text.map Char.toLower
  changes := Char.isUpper
  fixed := fun text low => (List.map_congr_left fun c among =>
    Char.toLower_eq_of_not_isUpper (Bool.eq_false_iff.mp (low c among))).trans (List.map_id text)
  dot := by decide

def webDocument : Mapping :=
  .mapping "web".toList 1
    (.leaf "port".toList "80#81".toList
      (.sequence "tags".toList 0 "one".toList ["t: w".toList] .nil))
    (.leaf "on".toList [] .nil)

theorem web_round_trip :
    ∃ flat, parseYaml asciiCase.toLowercase (render webDocument) = .ok flat ∧
      ∀ path, fetch flat path = fetch (flatten webDocument) path := by
  have wellFormed : webDocument.WellFormed asciiCase := by
    simp [webDocument, Mapping.WellFormed, Key, SingleLine, Text.isWhitespace, asciiCase, Char.isUpper]
  refine (round_trip_exactly asciiCase webDocument wellFormed).mpr ?_
  rintro before path leaves after split - text among ⟨front, blank, back, rfl, white⟩
  have clean : ∀ entry ∈ assignments none webDocument, ∀ text ∈ entry.2,
      '#' ∈ text → ∀ c ∈ text, isBlank c = false := by
    simp [webDocument, assignments, isBlank]
  have dark := clean (path, leaves) (by simp [split]) _ among (by simp) blank (by simp)
  rw [white] at dark
  cases dark

def titleDocument : Mapping := .leaf "title".toList "Issue #1".toList .nil

theorem hash_cut_off : ¬ ∃ flat, parseYaml asciiCase.toLowercase (render titleDocument) = .ok flat ∧
    ∀ path, fetch flat path = fetch (flatten titleDocument) path := by
  rintro ⟨flat, scanned, same⟩
  have cut : parseYaml asciiCase.toLowercase (render titleDocument) =
      .ok [("title".toList, "\"Issue".toList)] := by rfl
  obtain rfl := Except.ok.inj (cut.symm.trans scanned)
  exact absurd (same "title".toList) (by decide)

end RoundTrip

end Firefly.Config.Yaml
