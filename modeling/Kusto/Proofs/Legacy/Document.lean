import Kusto.Legacy.Upgrade
import Mathlib.Data.List.Forall2

/-!
# Documents of the older generation — what they look like and what they say

Each part of an old document is described together with what it says: a field with a property, a
node with a condition, an aggregation or a grouping, a clause with the nodes that are nested in it,
from left to right.  The members of an object may stand in any order, and other members may hold
plain values.  Such a document shows old nodes only (`shape_of_says`).
-/

open Kusto.Json (Members)

namespace Kusto.Legacy

open Draft (Scalar Operand Operator Parameter Condition Aggregation Grouping Clause)

/-! ## Objects and fields -/

/-- Neither an array nor an object. -/
def IsPlain : Json → Prop
  | .arr _ | .obj _ => False
  | _ => True

instance : DecidablePred IsPlain := fun j => by
  cases j <;> unfold IsPlain <;> infer_instance

/-- The members of an old object: each key once, no tag and no member of a current node, and plain
values in all but the `parts`. -/
structure IsRecord (parts : List String) (ms : Members) : Prop where
  keys : (ms.map Prod.fst).Nodup
  operator : ms.lookup "type" ≠ some (.str "operator")
  reference : ms.lookup "type" ≠ some (.str "property")
  property : ms.lookup "property" = none
  plain : ∀ m ∈ ms, m.1 ∉ parts → IsPlain m.2

instance (parts : List String) (ms : Members) : Decidable (IsRecord parts ms) :=
  decidable_of_iff
    ((ms.map Prod.fst).Nodup ∧ ms.lookup "type" ≠ some (.str "operator") ∧
      ms.lookup "type" ≠ some (.str "property") ∧ ms.lookup "property" = none ∧
      ∀ m ∈ ms, m.1 ∉ parts → IsPlain m.2)
    ⟨fun ⟨h1, h2, h3, h4, h5⟩ => ⟨h1, h2, h3, h4, h5⟩,
      fun h => ⟨h.keys, h.operator, h.reference, h.property, h.plain⟩⟩

/-- The name of a type names it; anything else, or nothing, stands for text. -/
def NamesType (j : Option Json) (t : ValueType) : Prop :=
  j = some (.str t.name) ∨ (t = .string ∧ ∀ u : ValueType, j ≠ some (.str u.name))

/-- An old field and the property that it names. -/
inductive IsField : Json → Property → Prop
  | mk {ms : Members} {p : Property} (record : IsRecord [] ms)
    (value : ms.lookup "value" = some (.str p.name)) (name : p.name ≠ "")
    (type : NamesType (ms.lookup "fieldType") p.type) : IsField (.obj ms) p

/-! ## Nodes -/

/-- A value or a list of values, as it is written; none if it is missing or null. -/
def IsOperand (j : Option Json) (v : Option Operand) : Prop :=
  j = v.map Operand.toJson ∨ (j = some .null ∧ v = none)

inductive IsOperator : Json → Operator → Prop
  | mk {ms : Members} {o : Operator} (record : IsRecord ["value", "labelValue"] ms)
    (name : ms.lookup "name" = some (.str o.name)) (value : IsOperand (ms.lookup "value") o.value)
    (label : IsOperand (ms.lookup "labelValue") o.label) : IsOperator (.obj ms) o

inductive IsCondition : Json → Condition → Prop
  | mk {ms : Members} {p : Property} {o : Operator} {field operator : Json}
    (record : IsRecord ["field", "operator"] ms)
    (tag : ms.lookup "type" = some (.str "fieldAndOperator"))
    (field_eq : ms.lookup "field" = some field) (isField : IsField field p)
    (operator_eq : ms.lookup "operator" = some operator) (isOperator : IsOperator operator o) :
    IsCondition (.obj ms) ⟨p, o⟩

/-- A well-formed parameter: a type, if there is one, is named by a text. -/
inductive IsParameter : Json → Parameter → Prop
  | mk {ms : Members} {q : Parameter} (record : IsRecord [] ms)
    (tag : ms.lookup "type" = some (.str "functionParameter"))
    (name : ms.lookup "name" = some (.str q.name))
    (value : ms.lookup "value" = some q.value.toJson ∨
      (ms.lookup "value" = none ∧ q.value = .text ""))
    (type : NamesType (ms.lookup "fieldType") q.type)
    (text : ∀ j, ms.lookup "fieldType" = some j → j = .null ∨ ∃ s, j = .str s) :
    IsParameter (.obj ms) q

/-- A list of parameters; missing, there are none. -/
def IsParameters (j : Option Json) (ps : List Parameter) : Prop :=
  (j = none ∧ ps = []) ∨ ∃ js, j = some (.arr js) ∧ List.Forall₂ IsParameter js ps

/-- An object with a text as its value. -/
inductive IsValue : Json → String → Prop
  | mk {ms : Members} {s : String} (record : IsRecord [] ms)
    (value : ms.lookup "value" = some (.str s)) : IsValue (.obj ms) s

inductive IsAggregation : Json → Aggregation → Prop
  | mk {ms : Members} {p : Property} {name : String} {ps : List Parameter} {field function : Json}
    (record : IsRecord ["field", "reduce", "parameters"] ms)
    (tag : ms.lookup "type" = some (.str "reduce"))
    (field_eq : ms.lookup "field" = some field) (isField : IsField field p)
    (function_eq : ms.lookup "reduce" = some function) (isValue : IsValue function name)
    (parameters : IsParameters (ms.lookup "parameters") ps) :
    IsAggregation (.obj ms) ⟨p, ⟨name, .function⟩, ps⟩

/-- The width of the bins; missing or empty, there is none. -/
def IsInterval (j : Option Json) (i : Option Property) : Prop :=
  (j = none ∧ i = none) ∨
    ∃ width s, j = some width ∧ IsValue width s ∧ i = if s = "" then none else some ⟨s, .interval⟩

inductive IsGrouping : Json → Grouping → Prop
  | mk {ms : Members} {p : Property} {i : Option Property} {field : Json}
    (record : IsRecord ["field", "interval"] ms)
    (tag : ms.lookup "type" = some (.str "groupBy"))
    (field_eq : ms.lookup "field" = some field) (isField : IsField field p)
    (interval : IsInterval (ms.lookup "interval") i) : IsGrouping (.obj ms) ⟨p, i⟩

/-! ## Clauses -/

/-- A value in a clause, what its nodes say, and whether it shows the older generation. -/
structure Branch (α : Type) where
  json : Json
  leaves : List α
  old : Bool

/-- A tag of containers. -/
def IsContainer (tag : String) : Prop := tag = "and" ∨ "Repeater".toList <:+ tag.toList

instance (tag : String) : Decidable (IsContainer tag) := inferInstanceAs (Decidable (_ ∨ _))

/-- Nodes nested in arrays and containers to any depth, what they say from left to right, and
whether the older generation shows: by a node, or by the repeater of conditions. -/
inductive Nest {α : Type} (Leaf : Json → α → Prop) : Json → List α → Bool → Prop
  | leaf {j : Json} {x : α} (h : Leaf j x) : Nest Leaf j [x] true
  | array {bs : List (Branch α)} (h : ∀ b ∈ bs, Nest Leaf b.json b.leaves b.old) :
    Nest Leaf (.arr (bs.map Branch.json)) (bs.flatMap Branch.leaves) (bs.any Branch.old)
  | container {ms : Members} {tag : String} {bs : List (Branch α)}
    (record : IsRecord ["expressions"] ms) (isContainer : IsContainer tag)
    (tag_eq : ms.lookup "type" = some (.str tag))
    (children : ms.lookup "expressions" = some (.arr (bs.map Branch.json)))
    (h : ∀ b ∈ bs, Nest Leaf b.json b.leaves b.old) :
    Nest Leaf (.obj ms) (bs.flatMap Branch.leaves)
      (tag = "operatorRepeater" || bs.any Branch.old)

/-- A clause; missing, it holds nothing. -/
def IsClause {α : Type} (Leaf : Json → α → Prop) (j : Option Json) (xs : List α) (old : Bool) :
    Prop :=
  (j = none ∧ xs = [] ∧ old = false) ∨ ∃ v, j = some v ∧ Nest Leaf v xs old

/-- A source names its table by a field in an expression of its own. -/
inductive IsSource : Json → Property → Prop
  | mk {ms : Members} {p : Property} {field : Json} (record : IsRecord ["expression"] ms)
    (field_eq : ms.lookup "expression" = some field) (isField : IsField field p) :
    IsSource (.obj ms) p

/-- The source of a document, if it has one. -/
def HasSource (j : Option Json) (source : Option Property) : Prop :=
  (j = none ∧ source = none) ∨ ∃ v p, j = some v ∧ IsSource v p ∧ source = some p

/-! ## Documents -/

/-- What a document says. -/
structure Content where
  source : Option Property := none
  conditions : List Condition := []
  aggregations : List Aggregation := []
  groupings : List Grouping := []

/-- The draft of a content: each condition is the only one of its group. -/
def Content.draft (c : Content) : Draft where
  source := c.source
  filter := .all (c.conditions.map fun x => .any [x])
  aggregations := .all c.aggregations
  groupings := .all c.groupings

/-- The document with these members says this, and it shows the older generation. -/
inductive Says (ms : Members) (c : Content) : Prop
  | mk {w r g : Bool} (source : HasSource (ms.lookup "from") c.source)
    (conditions : IsClause IsCondition (ms.lookup "where") c.conditions w)
    (aggregations : IsClause IsAggregation (ms.lookup "reduce") c.aggregations r)
    (groupings : IsClause IsGrouping (ms.lookup "groupBy") c.groupings g)
    (old : c.source.isSome || w || r || g)

/-! ## Marks -/

variable {α : Type}

namespace Marks

/-- No current node is seen, and an old one if `old`. -/
structure Shows (m : Marks) (old : Bool) : Prop where
  current : m.current = false
  legacy : old = true → m.legacy = true

theorem shows_empty : Shows {} false := ⟨rfl, fun h => absurd h (by decide)⟩

theorem Shows.join {a b : Marks} {x y : Bool} (ha : a.Shows x) (hb : b.Shows y) :
    (a.join b).Shows (x || y) := by
  constructor
  · show (a.current || b.current) = false
    rw [ha.current, hb.current]
    rfl
  · intro h
    show (a.legacy || b.legacy) = true
    rcases Bool.or_eq_true_iff.mp h with h | h
    · rw [ha.legacy h, Bool.true_or]
    · rw [hb.legacy h, Bool.or_true]

theorem current_ofValues (ms : Members) :
    (ofValues ms).current = ms.any fun m => (ofJson m.2).current := by
  induction ms with
  | nil => rfl
  | cons m ms ih => rw [List.any_cons, ← ih]; rfl

theorem legacy_ofValues (ms : Members) :
    (ofValues ms).legacy = ms.any fun m => (ofJson m.2).legacy := by
  induction ms with
  | nil => rfl
  | cons m ms ih => rw [List.any_cons, ← ih]; rfl

theorem shows_of_isPlain {j : Json} (h : IsPlain j) : (ofJson j).Shows false := by
  cases j with
  | arr xs => exact absurd h id
  | obj ms => exact absurd h id
  | _ => exact shows_empty

theorem shows_array {bs : List (Branch α)} (h : ∀ b ∈ bs, (ofJson b.json).Shows b.old) :
    (ofJson (.arr (bs.map Branch.json))).Shows (bs.any Branch.old) := by
  show (ofItems (bs.map Branch.json)).Shows _
  induction bs with
  | nil => exact shows_empty
  | cons b bs ih =>
    rw [List.any_cons]
    exact (h b (by simp)).join (ih fun c hc => h c (by simp [hc]))

end Marks

open Marks

section Records

variable {parts : List String} {ms : Members}

theorem path_pair (j : Json) (key inner : String) :
    j.path? [key, inner] = (j.member? key).bind (Json.member? inner) := by
  simp [Json.path?, List.foldlM_cons, List.foldlM_nil]

theorem lookup_of_mem (h : (ms.map Prod.fst).Nodup) {m : String × Json} (hm : m ∈ ms) :
    ms.lookup m.1 = some m.2 := by
  obtain ⟨before, after, rfl⟩ := List.append_of_mem hm
  refine List.lookup_eq_some_iff.mpr ⟨before, after, rfl, fun x hx => ?_⟩
  rw [List.map_append, List.nodup_append] at h
  have hne := h.2.2 x.1 (List.mem_map_of_mem hx) m.1 (by simp)
  simpa using Ne.symm hne

/-- The members of an old object name no current node. -/
theorem IsRecord.current_ofMembers (h : IsRecord parts ms) : (ofMembers ms).current = false := by
  unfold ofMembers
  split
  · rename_i tag htag
    obtain ⟨j, hj, ht⟩ := Option.bind_eq_some_iff.mp htag
    obtain rfl : j = .str tag := by
      cases j with
      | str s => rw [Option.some.inj ht]
      | _ => exact absurd ht (by simp [Json.text?])
    split
    · rfl
    · -- operators and references show by their tags alone, other current nodes by a property
      split
      · rename_i _ hcurrent
        simp only [List.mem_cons, List.not_mem_nil, or_false] at hcurrent
        rcases hcurrent with rfl | rfl
        · exact absurd hj h.operator
        · exact absurd hj h.reference
      · split
        · rw [h.property]
          rfl
        · rfl
  · rfl

/-- An old object shows no current node if its parts do not. -/
theorem IsRecord.current (h : IsRecord parts ms)
    (hp : ∀ key ∈ parts, ∀ v, ms.lookup key = some v → (ofJson v).current = false) :
    (ofJson (.obj ms)).current = false := by
  have hvalues : (ofValues ms).current = false := by
    rw [current_ofValues, List.any_eq_false]
    intro m hm
    by_cases hpart : m.1 ∈ parts
    · simp [hp m.1 hpart m.2 (lookup_of_mem h.keys hm)]
    · simp [(shows_of_isPlain (h.plain m hm hpart)).current]
  show ((ofMembers ms).current || (ofValues ms).current) = false
  rw [h.current_ofMembers, hvalues]
  rfl

theorem IsRecord.shows (h : IsRecord parts ms)
    (hp : ∀ key ∈ parts, ∀ v, ms.lookup key = some v → (ofJson v).current = false)
    (hold : (ofMembers ms).legacy = true) : (ofJson (.obj ms)).Shows true := by
  refine ⟨h.current hp, fun _ => ?_⟩
  show ((ofMembers ms).legacy || (ofValues ms).legacy) = true
  rw [hold, Bool.true_or]

theorem current_of_lookup {key : String} {j v : Json} (hj : ms.lookup key = some j)
    (h : (ofJson j).current = false) (hv : ms.lookup key = some v) :
    (ofJson v).current = false := by
  rw [Option.some.inj (hv.symm.trans hj)]
  exact h

theorem IsRecord.current_of_nil (h : IsRecord [] ms) : (ofJson (.obj ms)).current = false :=
  h.current fun _ hkey => absurd hkey List.not_mem_nil

end Records

/-! ### Nodes -/

section Nodes

theorem current_field {j : Json} {p : Property} (h : IsField j p) :
    (ofJson j).current = false := by
  cases h with
  | mk record => exact record.current_of_nil

theorem current_operand {v : Option Operand} {j : Option Json} (h : IsOperand j v) {x : Json}
    (hx : j = some x) : (ofJson x).current = false := by
  have hscalar : ∀ s : Scalar, ofJson s.toJson = {} := fun s => by cases s <;> rfl
  have hitems : ∀ ss : List Scalar, ofItems (ss.map Scalar.toJson) = {} := fun ss => by
    induction ss with
    | nil => rfl
    | cons s ss ih =>
      show (ofJson s.toJson).join (ofItems (ss.map Scalar.toJson)) = {}
      rw [hscalar, ih]
      rfl
  rcases h with h | ⟨h, -⟩
  · obtain ⟨o, -, ho⟩ := Option.map_eq_some_iff.mp (h.symm.trans hx)
    subst ho
    cases o with
    | one s => rw [Operand.toJson, hscalar]
    | many ss =>
      show (ofItems _).current = false
      rw [hitems]
  · obtain rfl := Option.some.inj (h.symm.trans hx)
    rfl

theorem current_operator {j : Json} {o : Operator} (h : IsOperator j o) :
    (ofJson j).current = false := by
  cases h with
  | mk record _ value label =>
    refine record.current fun key hkey v hv => ?_
    simp only [List.mem_cons, List.not_mem_nil, or_false] at hkey
    rcases hkey with rfl | rfl
    · exact current_operand value hv
    · exact current_operand label hv

theorem shows_condition {j : Json} {c : Condition} (h : IsCondition j c) :
    (ofJson j).Shows true := by
  cases h with
  | mk record tag field_eq isField operator_eq isOperator =>
    refine record.shows (fun key hkey v hv => ?_) (by rw [ofMembers, tag]; rfl)
    simp only [List.mem_cons, List.not_mem_nil, or_false] at hkey
    rcases hkey with rfl | rfl
    · exact current_of_lookup field_eq (current_field isField) hv
    · exact current_of_lookup operator_eq (current_operator isOperator) hv

theorem current_parameters {j : Option Json} {ps : List Parameter} (h : IsParameters j ps)
    {x : Json} (hx : j = some x) : (ofJson x).current = false := by
  rcases h with ⟨h, -⟩ | ⟨js, h, hall⟩
  · exact absurd (h.symm.trans hx) (by simp)
  · obtain rfl := Option.some.inj (h.symm.trans hx)
    clear h hx
    show (ofItems js).current = false
    induction hall with
    | nil => rfl
    | cons hq _ ih =>
      cases hq with
      | mk record =>
        show ((ofJson _).current || (ofItems _).current) = false
        rw [record.current_of_nil, ih]
        rfl

theorem current_value {j : Json} {s : String} (h : IsValue j s) : (ofJson j).current = false := by
  cases h with
  | mk record => exact record.current_of_nil

theorem shows_aggregation {j : Json} {a : Aggregation} (h : IsAggregation j a) :
    (ofJson j).Shows true := by
  cases h with
  | mk record tag field_eq isField function_eq isValue parameters =>
    refine record.shows (fun key hkey v hv => ?_) (by rw [ofMembers, tag, field_eq]; rfl)
    simp only [List.mem_cons, List.not_mem_nil, or_false] at hkey
    rcases hkey with rfl | rfl | rfl
    · exact current_of_lookup field_eq (current_field isField) hv
    · exact current_of_lookup function_eq (current_value isValue) hv
    · exact current_parameters parameters hv

theorem shows_grouping {j : Json} {g : Grouping} (h : IsGrouping j g) :
    (ofJson j).Shows true := by
  cases h with
  | mk record tag field_eq isField interval =>
    refine record.shows (fun key hkey v hv => ?_) (by rw [ofMembers, tag, field_eq]; rfl)
    simp only [List.mem_cons, List.not_mem_nil, or_false] at hkey
    rcases hkey with rfl | rfl
    · exact current_of_lookup field_eq (current_field isField) hv
    · rcases interval with ⟨h, -⟩ | ⟨width, s, h, hwidth, -⟩
      · exact absurd (h.symm.trans hv) (by simp)
      · exact current_of_lookup h (current_value hwidth) hv

end Nodes

/-! ### Clauses -/

section Clauses

variable {Leaf : Json → α → Prop} {j : Json} {xs : List α} {old : Bool}

theorem shows_nest (hleaf : ∀ j x, Leaf j x → (ofJson j).Shows true) (h : Nest Leaf j xs old) :
    (ofJson j).Shows old := by
  induction h with
  | leaf h => exact hleaf _ _ h
  | array _ ih => exact shows_array ih
  | @container ms tag bs record isContainer tag_eq children _ ih =>
    have hchildren := shows_array ih
    refine ⟨record.current fun key hkey v hv => ?_, fun hold => ?_⟩
    · obtain rfl := List.mem_singleton.mp hkey
      exact current_of_lookup children hchildren.current hv
    · show ((ofMembers ms).legacy || (ofValues ms).legacy) = true
      -- the tag shows the older generation, or one of the children does
      rcases Bool.or_eq_true_iff.mp hold with htag | hany
      · obtain rfl : tag = "operatorRepeater" := of_decide_eq_true htag
        rw [ofMembers, tag_eq]
        rfl
      · obtain ⟨before, after, rfl, -⟩ := List.lookup_eq_some_iff.mp children
        rw [legacy_ofValues, List.any_append, List.any_cons, hchildren.legacy hany]
        simp

theorem shows_clause (hleaf : ∀ j x, Leaf j x → (ofJson j).Shows true) {ms : Members}
    {clause : String} (h : IsClause Leaf (ms.lookup clause) xs old) :
    (clauseMarks ms clause).Shows old := by
  unfold clauseMarks
  rcases h with ⟨h, -, rfl⟩ | ⟨v, h, hnest⟩
  · rw [h]
    exact shows_empty
  · rw [h]
    exact shows_nest hleaf hnest

theorem shows_source {ms : Members} {source : Option Property}
    (h : HasSource (ms.lookup "from") source) :
    ((sourceMarks ms).join (clauseMarks ms "from")).Shows source.isSome := by
  unfold sourceMarks clauseMarks
  rcases h with ⟨h, rfl⟩ | ⟨v, p, h, hsource, rfl⟩
  · rw [h]
    exact shows_empty
  · cases hsource with
    | mk record field_eq isField =>
      have hcurrent := record.current fun key hkey v hv => by
        obtain rfl := List.mem_singleton.mp hkey
        exact current_of_lookup field_eq (current_field isField) hv
      have hpath : (ms.lookup "from").bind (Json.path? ["expression", "value"]) =
          some (.str p.name) := by
        rw [h, Option.bind_some, path_pair]
        cases isField with
        | mk _ value =>
          show (List.lookup "expression" _).bind _ = _
          rw [field_eq]
          exact value
      rw [hpath, h]
      refine ⟨?_, fun _ => rfl⟩
      show (false || (ofJson (.obj _)).current) = false
      rw [hcurrent]
      rfl

/-- **A document that says something old is of the older generation.** -/
theorem shape_of_says {ms : Members} {c : Content} (h : Says ms c) : shape (.obj ms) = .legacy := by
  obtain ⟨source, conditions, aggregations, groupings, old⟩ := h
  have hwhere := shows_clause (fun _ _ => shows_condition) conditions
  have hreduce := shows_clause (fun _ _ => shows_aggregation) aggregations
  have hgroup := shows_clause (fun _ _ => shows_grouping) groupings
  have hall : (marks ms).Shows _ := (((shows_source source).join hwhere).join hreduce).join hgroup
  have hlegacy := hall.legacy old
  unfold shape
  dsimp only
  cases hm : marks ms with
  | mk legacy current =>
    rw [hm] at hall hlegacy
    obtain rfl : legacy = true := hlegacy
    obtain rfl : current = false := hall.current
    rfl

end Clauses

end Kusto.Legacy
