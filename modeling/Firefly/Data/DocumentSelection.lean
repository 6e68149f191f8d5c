import Firefly.Data.RowSelection
import Firefly.Data.Specification

set_option autoImplicit false

namespace Firefly.Data

open Json (Value)

def metacharacters : List Char :=
  ['.', '^', '$', '*', '+', '?', '(', ')', '[', ']', '\x7b', '\x7d', '|', '\\']

def regexChar (c : Char) : List Char :=
  if c = '%' then ['.', '*']
  else if c = '_' then ['.']
  else if c ∈ metacharacters then ['\\', c]
  else [c]

-- The pattern's text: `jsonText` is what `Value::to_string` prints.
def patternText (jsonText : Value → String) : Value → String
  | .string s => s
  | other => jsonText other

def likeToRegex (jsonText : Value → String) (pattern : Value) : String :=
  String.ofList ('^' :: (patternText jsonText pattern).toList.flatMap regexChar ++ ['$'])

def predicateToMongo (jsonText : Value → String) (p : Predicate) : Value :=
  let clause operators : Value := .object [(p.field, .object operators)]
  match p.op with
  | .eq => clause [("$eq", p.value)]
  | .ne => clause [("$ne", p.value)]
  | .lt => clause [("$lt", p.value)]
  | .lte => clause [("$lte", p.value)]
  | .gt => clause [("$gt", p.value)]
  | .gte => clause [("$gte", p.value)]
  | .like => clause [("$regex", .string (likeToRegex jsonText p.value))]
  | .iLike => clause [("$options", .string "i"), ("$regex", .string (likeToRegex jsonText p.value))]
  | .isIn => clause [("$in", p.value)]
  | .isNil => clause [("$eq", .null)]

def isEmptyMongo : Value → Bool
  | .object [] => true
  | _ => false

def combineMongo (connective : String) : List Value → Value
  | [] => .object []
  | [clause] => clause
  | clauses => .object [(connective, .array clauses)]

def combineMongoAnd (clauses : List Value) : Value := combineMongo "$and" clauses

namespace Specification

mutual

def toMongo (jsonText : Value → String) : Specification → Value
  | .all => .object []
  | .pred p => predicateToMongo jsonText p
  | .and children => combineMongoAnd (nonEmptyMongoChildren jsonText children)
  | .or children => combineMongo "$or" (nonEmptyMongoChildren jsonText children)
  | .not inner =>
    let doc := toMongo jsonText inner
    if isEmptyMongo doc then .object [] else .object [("$nor", .array [doc])]

def nonEmptyMongoChildren (jsonText : Value → String) : List Specification → List Value
  | [] => []
  | child :: children =>
    let doc := toMongo jsonText child
    let docs := nonEmptyMongoChildren jsonText children
    if isEmptyMongo doc then docs else doc :: docs

end

end Specification

end Firefly.Data

namespace Firefly.Data

open Json (Value)
open Patterns Regex
open SqlText (Comparison)

/-- How option `i` folds the case of a character. -/
structure Mongo where
  fold : Char → Char
  wildcards : ∀ c, (fold c = '%' ↔ c = '%') ∧ (fold c = '_' ↔ c = '_')

def valueAt (doc : Value) (name : List Char) : List Char → Value
  | [] => doc.field (String.ofList name)
  | c :: rest =>
    if c = '.' then valueAt (doc.field (String.ofList name)) [] rest
    else valueAt doc (name ++ [c]) rest

namespace Mongo

variable (mongo : Mongo)

def order : Value → Value → Option Ordering
  | .null, .null => some .eq
  | .number (.int m), .number (.int n) => some (compare m n)
  | .string s, .string t => some (compare s t)
  | _, _ => none

def ordered (c : Comparison) (actual bound : Value) : Bool :=
  ((order actual bound).map c.holds).getD false

def same (insensitive : Bool) (c d : Char) : Bool :=
  if insensitive then mongo.fold c = mongo.fold d else c = d

def regex (insensitive : Bool) (actual : Value) (text : String) : Option Bool :=
  (Regex.parse text.toList).map fun items =>
    match actual with
    | .string s => Regex.search (mongo.same insensitive) items s.toList
    | _ => false

-- One operator of a field. `none` is a refusal by the server.
def operator (insensitive : Bool) (actual : Value) : String → Value → Option Bool
  | "$eq", value => some (actual = value)
  | "$ne", value => some (actual ≠ value)
  | "$lt", value => some (ordered .lt actual value)
  | "$lte", value => some (ordered .le actual value)
  | "$gt", value => some (ordered .gt actual value)
  | "$gte", value => some (ordered .ge actual value)
  | "$in", .array items => some (items.contains actual)
  | "$regex", .string text => mongo.regex insensitive actual text
  | "$options", .string "i" => if insensitive then some true else none
  | _, _ => none

def operators (insensitive : Bool) (actual : Value) : Json.Fields → Option Bool
  | [] => some true
  | (name, value) :: rest => do
    let here ← mongo.operator insensitive actual name value
    let later ← operators insensitive actual rest
    return here && later

mutual

def selects (doc : Value) : Value → Option Bool
  | .object clauses => selectsAll doc clauses
  | _ => none

def selectsAll (doc : Value) : List (String × Value) → Option Bool
  | [] => some true
  | (key, value) :: rest => do
    let here ← clause doc key value
    let later ← selectsAll doc rest
    return here && later

def clause (doc : Value) (key : String) : Value → Option Bool
  | .array items => do
    let each ← answers doc items
    if each = [] then none
    else match key with
      | "$and" => some (each.all id)
      | "$or" => some (each.any id)
      | "$nor" => some !(each.any id)
      | _ => none
  | .object named =>
    if key.toList.head? = some '$' then none
    else mongo.operators (Json.Fields.get named "$options" = some (.string "i"))
      (valueAt doc [] key.toList) named
  | _ => none

def answers (doc : Value) : List Value → Option (List Bool)
  | [] => some []
  | filter :: filters => do
    let here ← selects doc filter
    let later ← answers doc filters
    return here :: later

end

end Mongo

def symbolsOf (c : Char) : List Symbol :=
  if c = '%' then [.special '.', .special '*']
  else if c = '_' then [.special '.']
  else [.literal c]

theorem scan_regexChar (c : Char) (rest : List Char) :
    scan false (regexChar c ++ rest) = (scan false rest).map (symbolsOf c ++ ·) := by
  have dot : symbol '.' = .special '.' := by decide
  have star : symbol '*' = .special '*' := by decide
  unfold regexChar symbolsOf
  split
  · simp [scan, dot, star, Function.comp_def]
  · split
    · simp [scan, dot]
    · split
      · rename_i special
        have plain : metacharacters.all (!·.isAlphanum) = true := by decide
        have here := List.all_eq_true.mp plain c special
        simp [scan, (Bool.not_eq_true' _).mp here]
      · rename_i plain
        have backslash : c ≠ '\\' := by
          rintro rfl
          exact plain (by decide)
        have literal : symbol c = .literal c := if_neg plain
        simp [scan, backslash, literal]

theorem scan_body (text rest : List Char) :
    scan false (text.flatMap regexChar ++ rest) =
      (scan false rest).map (text.flatMap symbolsOf ++ ·) := by
  induction text with
  | nil => simp
  | cons c text ih =>
    rw [List.flatMap_cons, List.append_assoc, scan_regexChar, ih]
    simp [Function.comp_def]

theorem push_symbolsOf (c : Char) (items : List Item) :
    (symbolsOf c).foldlM push items = some (itemOf c :: items) := by
  unfold symbolsOf itemOf
  split
  · rfl
  · split <;> rfl

theorem push_body (text : List Char) (items : List Item) :
    (text.flatMap symbolsOf).foldlM push items = some ((text.map itemOf).reverse ++ items) := by
  induction text generalizing items with
  | nil => rfl
  | cons c text ih =>
    rw [List.flatMap_cons, List.foldlM_append, push_symbolsOf]
    simpa using ih (itemOf c :: items)

theorem parse_likeToRegex (jsonText : Value → String) (pattern : Value) :
    Regex.parse (likeToRegex jsonText pattern).toList =
      some (.start :: (patternText jsonText pattern).toList.map itemOf ++ [.stop]) := by
  have opening : symbol '^' = .special '^' := by decide
  have closing : symbol '$' = .special '$' := by decide
  have scanned : scan false (likeToRegex jsonText pattern).toList =
      some (.special '^' :: (patternText jsonText pattern).toList.flatMap symbolsOf ++
        [.special '$']) := by
    rw [likeToRegex, String.toList_ofList, List.cons_append, scan, if_neg (by decide), scan_body]
    simp [scan, opening, closing]
  rw [Regex.parse, scanned]
  simp [List.foldlM_append, push_body, push]

def Held : Value → Prop
  | .null | .number (.int _) | .string _ => True
  | _ => False

def Valued (p : Predicate) : Prop :=
  Held p.value ∨ p.op = .isIn ∧ ∃ items, p.value = .array items ∧ ∀ item ∈ items, Held item

def OrderedAlike (c : Comparison) : Value → Value → Prop
  | .number (.int m), .number (.int n) =>
    Double.rounded m = Double.rounded n → c.holds (compare m n) = c.holds .eq
  | .null, .null => c.holds .eq = false
  | _, _ => True

def LikeAlike (same : Char → Char → Bool) (jsonText : Value → String) : Value → Value → Prop
  | .string text, .string pattern =>
    Like (fun _ => True) (same · ·) pattern.toList text.toList ↔
      LineLike same pattern.toList text.toList
  | .string text, other => ¬LineLike same (jsonText other).toList text.toList
  | _, _ => True

section Predicates

variable (mongo : Mongo) (lower : String → String) (jsonText : Value → String) (doc : Value)

structure Addressed (p : Predicate) : Prop where
  operator : p.field.toList.head? ≠ some '$'
  path : '.' ∉ p.field.toList
  lowered : p.op = .iLike → ∀ s, doc.field p.field = .string s ∨ p.value = .string s →
    (lower s).toList = s.toList.map mongo.fold

def ClearIn (p : Predicate) : Prop :=
  let actual := doc.field p.field
  match p.op with
  | .eq | .ne | .isNil => True
  | .lt => OrderedAlike .lt actual p.value
  | .lte => OrderedAlike .le actual p.value
  | .gt => OrderedAlike .gt actual p.value
  | .gte => OrderedAlike .ge actual p.value
  | .like => LikeAlike (mongo.same false) jsonText actual p.value
  | .iLike => LikeAlike (mongo.same true) jsonText actual p.value
  | .isIn => ∃ items, p.value = .array items

variable {mongo lower jsonText doc}

theorem valueAt_plain {rest : List Char} (plain : '.' ∉ rest) (name : List Char) :
    valueAt doc name rest = doc.field (String.ofList (name ++ rest)) := by
  induction rest generalizing name with
  | nil => simp [valueAt]
  | cons c rest ih =>
    rw [List.mem_cons, not_or] at plain
    rw [valueAt, if_neg (Ne.symm plain.1), ih plain.2]
    simp

theorem ordered_alike {c : Comparison} {a b : Value} (left : Held a) (right : Held b) :
    Mongo.ordered c a b = ((jsonCmp a b).map c.holds).getD false ↔ OrderedAlike c a b := by
  match a, b with
  | .number (.int m), .number (.int n) =>
    simp only [Mongo.ordered, Mongo.order, jsonCmp, Option.map_some, Option.getD_some, OrderedAlike]
    by_cases same : Double.rounded m = Double.rounded n
    · simp [same, Json.Number.asF64, Std.compare_self]
    · have order := (jsonOrder_int m n).mpr fun _ => same
      simp only [same, false_imp_iff, iff_true]
      exact congrArg c.holds order.symm
  | .null, .null => exact Iff.rfl
  | .string s, .string t => exact iff_of_true rfl trivial
  | .null, .number (.int _) | .null, .string _ | .number (.int _), .null
  | .number (.int _), .string _ | .string _, .null | .string _, .number (.int _) =>
    exact iff_of_true rfl trivial

theorem like_alike {a b : Value} {insensitive : Bool}
    (lowered : insensitive → ∀ s, a = .string s ∨ b = .string s →
      (lower s).toList = s.toList.map mongo.fold) :
    mongo.regex insensitive a (likeToRegex jsonText b) = some (likeMatch lower a b insensitive) ↔
      LikeAlike (mongo.same insensitive) jsonText a b := by
  rw [Mongo.regex, parse_likeToRegex, Option.map_some, Option.some_inj, Bool.eq_iff_iff]
  match a, b with
  | .string text, .string pattern =>
    simp only [search_like, patternText, LikeAlike]
    refine iff_comm.trans (iff_congr ?_ Iff.rfl)
    rw [likeMatch]
    cases insensitive with
    | false => simp [likeMatchChars_iff, Mongo.same]
    | true =>
      have left := lowered rfl text (.inl rfl)
      have right := lowered rfl pattern (.inr rfl)
      simp [likeMatchChars_iff, Mongo.same, left, right, like_map mongo.wildcards, Function.comp_def]
  | .string text, .null | .string text, .bool _ | .string text, .number _ | .string text, .array _
  | .string text, .object _ =>
    simp only [search_like, patternText, LikeAlike, likeMatch, Bool.false_eq_true, iff_false]
  | .null, _ | .bool _, _ | .number _, _ | .array _, _ | .object _, _ =>
    simp [LikeAlike, likeMatch]

theorem selects_field {field : String} (operator : field.toList.head? ≠ some '$')
    (path : '.' ∉ field.toList) (named : Json.Fields) :
    mongo.selects doc (.object [(field, .object named)]) =
      mongo.operators (Json.Fields.get named "$options" = some (.string "i")) (doc.field field)
        named := by
  have actual : valueAt doc [] field.toList = doc.field field := by
    rw [valueAt_plain path, List.nil_append, String.ofList_toList]
  simp [Mongo.selects, Mongo.selectsAll, Mongo.clause, operator, actual]

theorem selects_alike {p : Predicate} (addressed : Addressed mongo lower doc p)
    (held : Held (doc.field p.field)) (valued : Valued p) :
    mongo.selects doc (predicateToMongo jsonText p) = some (evalPredicate lower p doc) ↔
      ClearIn mongo jsonText doc p := by
  obtain ⟨field, op, value⟩ := p
  obtain ⟨operator, path, lowered⟩ := addressed
  have single (insensitive : Bool) (name : String) (argument : Value) :
      mongo.operators insensitive (doc.field field) [(name, argument)] =
        mongo.operator insensitive (doc.field field) name argument := by
    simp [Mongo.operators]
  have right (scalar : op ≠ .isIn) : Held value := valued.resolve_right fun list => scalar list.1
  rw [predicateToMongo, evalPredicate]
  cases op with
  | eq | ne | isNil =>
    simp only [selects_field operator path, single]
    exact iff_of_true rfl trivial
  | lt | lte | gt | gte =>
    simp only [selects_field operator path, single]
    exact Option.some_inj.trans (ordered_alike held (right (by simp)))
  | like =>
    simp only [selects_field operator path, single]
    have unchanged : false = true → ∀ s, doc.field field = .string s ∨ value = .string s →
        (lower s).toList = s.toList.map mongo.fold := fun insensitive => absurd insensitive (by decide)
    exact like_alike unchanged
  | iLike =>
    have both (argument : Value) :
        mongo.operators true (doc.field field) [("$options", .string "i"), ("$regex", argument)] =
          mongo.operator true (doc.field field) "$regex" argument := by
      simp [Mongo.operators, Mongo.operator]
    simp only [selects_field operator path]
    exact both _ ▸ like_alike fun _ => lowered rfl
  | isIn =>
    simp only [selects_field operator path, single]
    cases value with
    | array items => exact iff_of_true rfl ⟨items, rfl⟩
    | _ => exact iff_of_false (by simp [Mongo.operator]) (by simp [ClearIn])

end Predicates

section Trees

variable {mongo : Mongo} {lower : String → String} {jsonText : Value → String} {doc : Value}

structure Lowers (mongo : Mongo) (lower : String → String) (jsonText : Value → String) (doc : Value)
    (spec : Specification) : Prop where
  filters : isEmptyMongo (spec.toMongo jsonText) = false
  selects : mongo.selects doc (spec.toMongo jsonText) = some (spec.eval lower doc)

theorem evalAll_eq (children : List Specification) :
    Specification.evalAll lower children doc = (children.map (·.eval lower doc)).all id := by
  induction children with
  | nil => rfl
  | cons child children ih => simp [Specification.evalAll, ih]

theorem evalAny_eq (children : List Specification) :
    Specification.evalAny lower children doc = (children.map (·.eval lower doc)).any id := by
  induction children with
  | nil => rfl
  | cons child children ih => simp [Specification.evalAny, ih]

theorem children_lower {children : List Specification}
    (each : ∀ child ∈ children, Lowers mongo lower jsonText doc child) :
    Specification.nonEmptyMongoChildren jsonText children = children.map (·.toMongo jsonText) ∧
      mongo.answers doc (children.map (·.toMongo jsonText)) =
        some (children.map (·.eval lower doc)) := by
  induction children with
  | nil => exact ⟨rfl, rfl⟩
  | cons child children ih =>
    have here := each child (by simp)
    obtain ⟨kept, answers⟩ := ih fun other inside => each other (by simp [inside])
    constructor
    · simp [Specification.nonEmptyMongoChildren, here.filters, kept]
    · simp [Mongo.answers, here.selects, answers]

theorem combineMongo_selects (connective : String) (combine : List Bool → Bool)
    {children : List Specification} (nonempty : children ≠ [])
    (each : ∀ child ∈ children, Lowers mongo lower jsonText doc child)
    (single : ∀ answer, combine [answer] = answer)
    (joins : ∀ docs answers, mongo.answers doc docs = some answers → answers ≠ [] →
      mongo.selects doc (.object [(connective, .array docs)]) = some (combine answers)) :
    isEmptyMongo (combineMongo connective
        (Specification.nonEmptyMongoChildren jsonText children)) = false ∧
      mongo.selects doc (combineMongo connective
          (Specification.nonEmptyMongoChildren jsonText children)) =
        some (combine (children.map (·.eval lower doc))) := by
  obtain ⟨kept, answers⟩ := children_lower each
  rw [kept]
  match children with
  | [] => exact absurd rfl nonempty
  | [child] =>
    have here := each child (by simp)
    exact ⟨here.filters, by simpa [single, combineMongo] using here.selects⟩
  | first :: second :: rest => exact ⟨rfl, joins _ _ answers (by simp)⟩

theorem Solid.lowers {spec : Specification} (solid : spec.Solid)
    (leaves : ∀ p ∈ spec.predicates,
      mongo.selects doc (predicateToMongo jsonText p) = some (evalPredicate lower p doc)) :
    Lowers mongo lower jsonText doc spec := by
  induction solid with
  | pred p =>
    refine ⟨?_, leaves p (by simp [Specification.predicates])⟩
    rw [Specification.toMongo, predicateToMongo]
    cases p.op <;> rfl
  | @and children nonempty solid each =>
    rw [Specification.predicates, Specification.predicatesOf_eq] at leaves
    have lowered := fun child inside => each child inside fun p member =>
      leaves p (List.mem_flatMap.mpr ⟨child, inside, member⟩)
    obtain ⟨filters, selects⟩ := combineMongo_selects "$and" (·.all id) nonempty lowered
      (by simp) fun docs answers here present => by
        simp [Mongo.selects, Mongo.selectsAll, Mongo.clause, here, present]
    exact ⟨filters, by rw [Specification.eval, evalAll_eq]; exact selects⟩
  | @or children nonempty solid each =>
    rw [Specification.predicates, Specification.predicatesOf_eq] at leaves
    have lowered := fun child inside => each child inside fun p member =>
      leaves p (List.mem_flatMap.mpr ⟨child, inside, member⟩)
    obtain ⟨filters, selects⟩ := combineMongo_selects "$or" (·.any id) nonempty lowered
      (by simp) fun docs answers here present => by
        simp [Mongo.selects, Mongo.selectsAll, Mongo.clause, here, present]
    exact ⟨filters, by rw [Specification.eval, evalAny_eq]; exact selects⟩
  | @not inner solid ih =>
    have here := ih (by rwa [Specification.predicates] at leaves)
    have lowered : (Specification.not inner).toMongo jsonText =
        .object [("$nor", .array [inner.toMongo jsonText])] := by
      rw [Specification.toMongo, here.filters]
      rfl
    refine ⟨lowered ▸ rfl, ?_⟩
    simp [lowered, Mongo.selects, Mongo.selectsAll, Mongo.clause, Mongo.answers, here.selects,
      Specification.eval]

end Trees

def SameDocument (mongo : Mongo) (lower : String → String) (jsonText : Value → String)
    (fields : Json.Fields) (spec : Specification) : Prop :=
  mongo.selects (.object fields) (spec.toMongo jsonText) =
    some (spec.matches lower (some (.object fields)))

theorem same_documents (mongo : Mongo) (lower : String → String) (jsonText : Value → String)
    (fields : Json.Fields) (held : ∀ key, Held (Value.field (.object fields) key)) :
    (∀ spec : Specification, spec.Built → (∀ p ∈ spec.predicates, Valued p) →
      (∀ p ∈ spec.predicates, Addressed mongo lower (.object fields) p ∧
        ClearIn mongo jsonText (.object fields) p) →
      SameDocument mongo lower jsonText fields spec) ∧
    ∀ p : Predicate, Valued p → Addressed mongo lower (.object fields) p →
      (SameDocument mongo lower jsonText fields (.pred p) ↔
        ClearIn mongo jsonText (.object fields) p) := by
  constructor
  · intro spec built valued clear
    refine (Solid.lowers built.solid fun p member => ?_).selects
    obtain ⟨addressed, here⟩ := clear p member
    exact (selects_alike addressed (held _) (valued p member)).mpr here
  · intro p valued addressed
    exact selects_alike addressed (held _) valued

theorem toLower_eq_iff {c d : Char} (below : d.val < 97) (noLetter : d.isUpper = false) :
    c.toLower = d ↔ c = d := by
  unfold Char.toLower
  split
  · rename_i upper
    refine iff_of_false ?_ ?_
    · rintro rfl
      simp only [UInt32.lt_iff_toNat_lt, UInt32.le_iff_toNat_le] at below upper
      simp at below upper
      omega
    · rintro rfl
      simp only [Char.isUpper, decide_eq_false_iff_not] at noLetter
      exact noLetter upper
  · rfl

def asciiFold : Mongo where
  fold := Char.toLower
  wildcards c := ⟨toLower_eq_iff (by decide) (by decide), toLower_eq_iff (by decide) (by decide)⟩

def jan : Json.Fields := [("age", .int 30), ("name", .string "Jan")]

def grown : Specification :=
  (Specification.pred ⟨"name", .iLike, .string "j%"⟩).andSpec
    (Specification.pred ⟨"age", .lte, .int 18⟩).notSpec

theorem grown_selected : SameDocument asciiFold ascii.lower (fun _ => "null") jan grown := by
  have held (key : String) : Held (Value.field (.object jan) key) := by
    rw [Value.field, Json.Fields.get, jan, List.lookup, List.lookup]
    split
    · trivial
    · split <;> trivial
  have leaves : grown.predicates = [⟨"name", .iLike, .string "j%"⟩, ⟨"age", .lte, .int 18⟩] := rfl
  have likes (wild : Char → Prop) (may : ∀ c ∈ ['a', 'n'], wild c) :
      Like wild (asciiFold.same true · ·) ['j', '%'] ['J', 'a', 'n'] :=
    .char (by decide) (by decide) (.run ['a', 'n'] may .nil)
  refine (same_documents asciiFold ascii.lower (fun _ => "null") jan held).1 grown
    (.and (.pred _) (.not (.pred _))) ?_ ?_
  · rw [leaves]
    simp [Valued, Held]
  · rw [leaves]
    refine List.forall_mem_cons.mpr ⟨⟨⟨by decide, by decide, fun _ s _ => ?_⟩, ?_⟩,
      List.forall_mem_singleton.mpr ⟨⟨by decide, by decide, fun like => nomatch like⟩, ?_⟩⟩
    · simp [ascii, asciiFold]
    · exact iff_of_true (likes _ (by simp)) (.inl (likes _ (by simp)))
    · intro same
      exact absurd same (by decide +kernel)

theorem line_feed_dropped :
    ¬SameDocument asciiFold ascii.lower (fun _ => "null") [("name", .string "Jan\nDoe")]
      (.pred ⟨"name", .like, .string "Jan%"⟩) := by
  rw [SameDocument]
  decide +kernel

end Firefly.Data
