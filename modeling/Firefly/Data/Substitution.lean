import Firefly.Data.NamedParameters

set_option autoImplicit false

-- All placeholders of a string are filled at once; the code fills one parameter after the other.

namespace Firefly.Data.CustomQuery

open Json (Value)

variable {jsonText : Value → Text}

def tokens : Text → List Piece
  | [] => []
  | c :: rest =>
    if c = ':' ∧ rest.takeWhile isNameChar ≠ [] then
      .parameter (rest.takeWhile isNameChar) :: tokens (rest.dropWhile isNameChar)
    else .text c :: tokens rest
termination_by text => text.length
decreasing_by
  · exact Nat.lt_succ_of_le (List.dropWhile_sublist _).length_le
  · simp

def form (jsonText : Value → Text) (entries : List (Text × Value)) (name : Text) : Option Text :=
  (entries.lookup name).map (valueStringForm jsonText)

def Piece.filled (known : Text → Option Text) : Piece → Text
  | .text c => [c]
  | .parameter name => (known name).getD (':' :: name)

def fill (known : Text → Option Text) (rest : List Piece) : Text := rest.flatMap (Piece.filled known)

def simultaneous (jsonText : Value → Text) (entries : List (Text × Value)) (template : Text) : Text :=
  fill (form jsonText entries) (tokens template)

def documentedString (jsonText : Value → Text) (params : Params) (s : String) : Value :=
  match exactParam params s.toList with
  | some value => value
  | none => .string (String.ofList (simultaneous jsonText params.entries s.toList))

def OnlyTokens (known : Text → Option Text) (name : Text) (rest : List Piece) : Prop :=
  ∀ n, ':' :: name <+: (fill known rest).drop n →
    ∃ before after, rest = before ++ .parameter name :: after ∧ n = (fill known before).length

def Separate (jsonText : Value → Text) (params : Params) (template : Text) : Prop :=
  ∀ earlier entry later, params.entries = earlier ++ entry :: later →
    OnlyTokens (form jsonText earlier) entry.1 (tokens template)

mutual

def mapStrings (f : String → Value) : Value → Value
  | .object fields => .object (mapStringsFields f fields)
  | .array items => .array (mapStringsItems f items)
  | .string s => f s
  | .null => .null
  | .bool b => .bool b
  | .number n => .number n

def mapStringsItems (f : String → Value) : List Value → List Value
  | [] => []
  | item :: items => mapStrings f item :: mapStringsItems f items

def mapStringsFields (f : String → Value) : List (String × Value) → List (String × Value)
  | [] => []
  | (key, value) :: fields => (key, mapStrings f value) :: mapStringsFields f fields

end

mutual

def strings : Value → List String
  | .object fields => stringsFields fields
  | .array items => stringsItems items
  | .string s => [s]
  | .null | .bool _ | .number _ => []

def stringsItems : List Value → List String
  | [] => []
  | item :: items => strings item ++ stringsItems items

def stringsFields : List (String × Value) → List String
  | [] => []
  | (_, value) :: fields => strings value ++ stringsFields fields

end

section Step

variable {known : Text → Option Text} {name : Text} {piece : Piece} {rest : List Piece}

@[simp] theorem fill_nil : fill known [] = [] := rfl

@[simp] theorem fill_cons : fill known (piece :: rest) = piece.filled known ++ fill known rest := rfl

theorem OnlyTokens.tail (only : OnlyTokens known name (piece :: rest)) (pending : known name = none) :
    OnlyTokens known name rest := by
  intro n starts
  have shifted : ':' :: name <+: (fill known (piece :: rest)).drop ((piece.filled known).length + n) := by
    rw [fill_cons, List.drop_append, List.drop_eq_nil_of_le (by omega)]
    simpa using starts
  obtain ⟨before, after, split, place⟩ := only _ shifted
  cases before with
  | nil =>
    obtain ⟨rfl, -⟩ := List.cons.inj split
    simp [Piece.filled, pending] at place
  | cons first before =>
    obtain ⟨rfl, rfl⟩ := List.cons.inj split
    refine ⟨before, after, rfl, ?_⟩
    simp only [fill_cons, List.length_append] at place
    omega

theorem OnlyTokens.other (only : OnlyTokens known name (piece :: rest))
    (differs : piece ≠ .parameter name) {n : Nat} (within : n < (piece.filled known).length) :
    ¬ ':' :: name <+: (fill known (piece :: rest)).drop n := by
  intro starts
  obtain ⟨before, after, split, place⟩ := only n starts
  cases before with
  | nil => exact differs (List.cons.inj split).1
  | cons first before =>
    obtain ⟨rfl, rfl⟩ := List.cons.inj split
    simp only [fill_cons, List.length_append] at place
    omega

theorem replace_fill (value : Text) (pending : known name = none)
    (only : OnlyTokens known name rest) :
    Text.replace ':' name value (fill known rest) =
      fill (Function.update known name (some value)) rest := by
  induction rest with
  | nil => simp [Text.replace]
  | cons piece rest ih =>
    have later := ih (only.tail pending)
    by_cases same : piece = .parameter name
    · subst same
      rw [fill_cons, fill_cons, Piece.filled, pending, Option.getD_none, Text.replace_match, later]
      simp [Piece.filled]
    · have kept : piece.filled (Function.update known name (some value)) = piece.filled known := by
        cases piece with
        | text c => rfl
        | parameter other =>
          have apart : other ≠ name := fun equal => same (by rw [equal])
          simp [Piece.filled, apart]
      rw [fill_cons, fill_cons, kept, Text.replace_run, later]
      intro n within
      exact only.other same within

end Step

theorem replaceParam_eq (result : Text) (entry : Text × Value) :
    replaceParam jsonText result entry =
      Text.replace ':' entry.1 (valueStringForm jsonText entry.2) result := by
  unfold replaceParam
  split
  next => rfl
  next absent => rw [Text.replace_absent absent]

theorem form_concat {earlier : List (Text × Value)} {entry : Text × Value}
    (fresh : earlier.lookup entry.1 = none) :
    form jsonText (earlier ++ [entry]) =
      Function.update (form jsonText earlier) entry.1 (some (valueStringForm jsonText entry.2)) := by
  obtain ⟨key, value⟩ := entry
  funext name
  by_cases same : name = key
  · subst same
    simp [form, List.lookup_append, fresh]
  · have differs : (name == key) = false := by simpa using same
    simp [form, List.lookup_append, List.lookup_cons, differs, Function.update_of_ne same]

theorem Params.fresh (params : Params) {earlier later : List (Text × Value)} {entry : Text × Value}
    (split : params.entries = earlier ++ entry :: later) : earlier.lookup entry.1 = none := by
  have sorted := params.sorted
  rw [split, List.pairwise_append] at sorted
  rw [List.lookup_eq_none_iff]
  intro other among
  have smaller := sorted.2.2 other among entry (by simp)
  rw [bne_iff_ne]
  intro same
  rw [same] at smaller
  exact List.lt_irrefl _ smaller

theorem foldl_replaceParam (params : Params) {template : Text}
    (separate : Separate jsonText params template) {earlier later : List (Text × Value)}
    (split : params.entries = earlier ++ later) :
    later.foldl (replaceParam jsonText) (simultaneous jsonText earlier template) =
      simultaneous jsonText params.entries template := by
  induction later generalizing earlier with
  | nil => simp [split]
  | cons entry later ih =>
    have fresh := params.fresh split
    have pending : form jsonText earlier entry.1 = none := by simp [form, fresh]
    have stepped : replaceParam jsonText (simultaneous jsonText earlier template) entry =
        simultaneous jsonText (earlier ++ [entry]) template := by
      rw [replaceParam_eq, simultaneous, replace_fill _ pending (separate earlier entry later split),
        simultaneous, form_concat fresh]
    rw [List.foldl_cons, stepped]
    exact ih (by simp [split])

theorem fill_none (template : Text) : fill (fun _ => none) (tokens template) = template := by
  fun_induction tokens template with
  | case1 => rfl
  | case2 c rest token ih =>
    obtain ⟨rfl, -⟩ := token
    rw [fill_cons, ih]
    simp [Piece.filled, List.takeWhile_append_dropWhile]
  | case3 c rest plain ih => simp [Piece.filled, ih]

theorem substituteStringParam_documented (params : Params) (s : String)
    (separate : (exactParam params s.toList).isSome ∨ Separate jsonText params s.toList) :
    substituteStringParam jsonText params s = documentedString jsonText params s := by
  unfold substituteStringParam documentedString
  cases exactly : exactParam params s.toList with
  | some value => rfl
  | none =>
    have apart : Separate jsonText params s.toList := by simpa [exactly] using separate
    have initial : simultaneous jsonText [] s.toList = s.toList := fill_none s.toList
    have whole := foldl_replaceParam params apart (List.nil_append params.entries).symm
    rw [initial] at whole
    rw [whole]

mutual

theorem substituteNamedParams_eq (params : Params) : ∀ template : Value,
    substituteNamedParams jsonText params template =
      mapStrings (substituteStringParam jsonText params) template
  | .object fields => by rw [substituteNamedParams, mapStrings, substituteFields_eq params fields]
  | .array items => by rw [substituteNamedParams, mapStrings, substituteItems_eq params items]
  | .string s => by rw [substituteNamedParams, mapStrings]
  | .null => rfl
  | .bool b => rfl
  | .number n => rfl

theorem substituteItems_eq (params : Params) : ∀ items : List Value,
    substituteItems jsonText params items =
      mapStringsItems (substituteStringParam jsonText params) items
  | [] => rfl
  | item :: items => by
    rw [substituteItems, mapStringsItems, substituteNamedParams_eq params item,
      substituteItems_eq params items]

theorem substituteFields_eq (params : Params) : ∀ fields : List (String × Value),
    substituteFields jsonText params fields =
      mapStringsFields (substituteStringParam jsonText params) fields
  | [] => rfl
  | (key, value) :: fields => by
    rw [substituteFields, mapStringsFields, substituteNamedParams_eq params value,
      substituteFields_eq params fields]

end

mutual

theorem mapStrings_congr {f g : String → Value} : ∀ {template : Value},
    (∀ s ∈ strings template, f s = g s) → mapStrings f template = mapStrings g template
  | .object fields, same => by rw [mapStrings, mapStrings, mapStringsFields_congr same]
  | .array items, same => by rw [mapStrings, mapStrings, mapStringsItems_congr same]
  | .string s, same => by
    rw [mapStrings, mapStrings]
    exact same s (by simp [strings])
  | .null, _ => rfl
  | .bool _, _ => rfl
  | .number _, _ => rfl

theorem mapStringsItems_congr {f g : String → Value} : ∀ {items : List Value},
    (∀ s ∈ stringsItems items, f s = g s) → mapStringsItems f items = mapStringsItems g items
  | [], _ => rfl
  | item :: items, same => by
    rw [stringsItems, List.forall_mem_append] at same
    rw [mapStringsItems, mapStringsItems, mapStrings_congr same.1, mapStringsItems_congr same.2]

theorem mapStringsFields_congr {f g : String → Value} : ∀ {fields : List (String × Value)},
    (∀ s ∈ stringsFields fields, f s = g s) → mapStringsFields f fields = mapStringsFields g fields
  | [], _ => rfl
  | (key, value) :: fields, same => by
    rw [stringsFields, List.forall_mem_append] at same
    rw [mapStringsFields, mapStringsFields, mapStrings_congr same.1, mapStringsFields_congr same.2]

end

theorem substituteNamedParams_documented (jsonText : Value → Text) (params : Params)
    (template : Value) (separate : ∀ s ∈ strings template,
      (exactParam params s.toList).isSome ∨ Separate jsonText params s.toList) :
    substituteNamedParams jsonText params template =
      mapStrings (documentedString jsonText params) template := by
  rw [substituteNamedParams_eq]
  exact mapStrings_congr fun s among => substituteStringParam_documented params s (separate s among)

theorem tokens_greeting : tokens "to :name!".toList =
    [.text 't', .text 'o', .text ' ', .parameter "name".toList, .text '!'] := by
  simp [tokens, isNameChar, List.takeWhile, List.dropWhile, Char.isAlphanum, Char.isAlpha,
    Char.isUpper, Char.isLower, Char.isDigit]

def recipient : Params := ⟨[("name".toList, .string "Ann")], by simp⟩

theorem recipient_separate : Separate (fun _ => []) recipient "to :name!".toList := by
  intro earlier entry later split
  obtain ⟨rfl, rfl, rfl⟩ : earlier = [] ∧ entry = ("name".toList, .string "Ann") ∧ later = [] := by
    cases earlier with
    | nil => simpa [recipient, eq_comm] using split
    | cons first earlier => simp [recipient] at split
  intro n starts
  rw [tokens_greeting] at starts ⊢
  have place : n = 3 := by
    have short : n < 9 := by
      by_contra past
      rw [List.drop_eq_nil_of_le (by simp [Piece.filled, form]; omega)] at starts
      simp at starts
    revert starts
    revert n
    decide
  exact ⟨[.text 't', .text 'o', .text ' '], [.text '!'], rfl, by simp [place, Piece.filled]⟩

theorem substituteNamedParams_greeting :
    (∀ s ∈ strings (.array [.string "to :name!"]),
      (exactParam recipient s.toList).isSome ∨ Separate (fun _ => []) recipient s.toList) ∧
    substituteNamedParams (fun _ => []) recipient (.array [.string "to :name!"]) =
      mapStrings (documentedString (fun _ => []) recipient) (.array [.string "to :name!"]) := by
  have separate : ∀ s ∈ strings (.array [.string "to :name!"]),
      (exactParam recipient s.toList).isSome ∨ Separate (fun _ => []) recipient s.toList := by
    intro s among
    obtain rfl : s = "to :name!" := by simpa [strings, stringsItems] using among
    exact .inr recipient_separate
  exact ⟨separate, substituteNamedParams_documented _ _ _ separate⟩

theorem substituteNamedParams_captured :
    substituteNamedParams (fun _ => [])
        ⟨[("a".toList, .string "1"), ("ab".toList, .string "2")], by decide⟩ (.string "q :ab") =
      .string "q 1b" ∧
    mapStrings (documentedString (fun _ => [])
        ⟨[("a".toList, .string "1"), ("ab".toList, .string "2")], by decide⟩) (.string "q :ab") =
      .string "q 2" := by
  constructor
  · simp [substituteNamedParams, substituteStringParam, exactParam, replaceParam, Text.replace]
    decide
  · have read : tokens "q :ab".toList = [.text 'q', .text ' ', .parameter "ab".toList] := by
      simp [tokens, isNameChar, List.takeWhile, List.dropWhile, Char.isAlphanum, Char.isAlpha,
        Char.isUpper, Char.isLower, Char.isDigit]
    simp only [mapStrings, documentedString, simultaneous, read]
    decide

end Firefly.Data.CustomQuery
