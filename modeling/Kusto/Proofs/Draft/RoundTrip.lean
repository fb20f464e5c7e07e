import Kusto.Draft.Basic
import Kusto.Proofs.Outcome

/-!
# Round trip of drafts — reading back what was written

Every node is read back from its stored form, and a node stored as a list is read as the object with
the same fields.  Every draft whose clauses have the connectives that the editor gives them is read
back as well.
-/

open Kusto.Json (Members)

namespace Kusto.Draft

/-! ## Fields -/

section Fields

variable {α : Type} {ms : Members} {key : String} {j : Json}

theorem nullable_of_lookup {read : Json → Option α} {v : α} (h : ms.lookup key = some j)
    (hj : j ≠ .null) (hr : read j = some v) : ms.nullable key read = some (some v) := by
  unfold Json.Members.nullable
  rw [h]
  cases j with
  | null => exact absurd rfl hj
  | _ => simp [hr]

theorem nullable_of_lookup_none {read : Json → Option α} (h : ms.lookup key = none) :
    ms.nullable key read = some none := by
  unfold Json.Members.nullable
  rw [h]

theorem readField_of_lookup {read : Json → Except Fault α} (h : ms.lookup key = some j) :
    readField ms key read = some (read j) := by
  unfold readField
  rw [h]
  rfl

theorem readField_of_lookup_none {read : Json → Except Fault α} (h : ms.lookup key = none) :
    readField ms key read = none := by
  unfold readField
  rw [h]
  rfl

/-- Without faulty fields there is no first one. -/
theorem firstFault_of_none {faults : List (String × Option Fault)}
    (h : ∀ f ∈ faults, f.2 = none) (ms : Members) : firstFault ms faults = .ok () := by
  have hlook : ∀ key : String, (faults.lookup key).join = none := by
    intro key
    cases hf : faults.lookup key with
    | none => rfl
    | some fault =>
      obtain ⟨before, after, rfl, -⟩ := List.lookup_eq_some_iff.mp hf
      exact h (key, fault) (by simp)
  have hnone : ms.findSome? (fun m => (faults.lookup m.1).join) = none := by
    rw [List.findSome?_eq_none_iff]
    exact fun m _ => hlook m.1
  unfold firstFault
  rw [hnone]

end Fields

/-! ## Operators and parameters -/

theorem Operand.toJson_ne_null (v : Operand) : v.toJson ≠ .null := by
  cases v with
  | one v => cases v <;> simp [Operand.toJson, Scalar.toJson]
  | many vs => simp [Operand.toJson]

/-- An operand that may be missing is read back from where it was written. -/
theorem nullable_operand {ms : Members} {key : String} {v : Option Operand}
    (h : ms.lookup key = v.map Operand.toJson) :
    ms.nullable key Operand.ofJson? = some v := by
  cases v with
  | none => exact nullable_of_lookup_none h
  | some v => exact nullable_of_lookup h v.toJson_ne_null (Operand.ofJson?_toJson v)

theorem Operator.ofJson?_toJson (o : Operator) : Operator.ofJson? o.toJson = some o := by
  obtain ⟨name, value, label⟩ := o
  have hvalue : (Operator.toJson ⟨name, value, label⟩).member? "value" =
      value.map Operand.toJson := by
    cases value <;> cases label <;> rfl
  have hlabel : (Operator.toJson ⟨name, value, label⟩).member? "labelValue" =
      label.map Operand.toJson := by
    cases value <;> cases label <;> rfl
  show (do
    return {
      name := ← some name
      value := ← Json.Members.nullable _ "value" Operand.ofJson?
      label := ← Json.Members.nullable _ "labelValue" Operand.ofJson? } : Option Operator) = _
  rw [nullable_operand hvalue, nullable_operand hlabel]
  rfl

theorem read_parameterJson (nested : Bool) (p : Parameter) :
    Node.read nested (Node.parameterJson p) = .ok (.parameter p) := by
  obtain ⟨name, value, type⟩ := p
  have hvalue := Scalar.ofJson?_toJson value
  have htype := ValueType.ofJson?_toJson type
  show (do return Node.parameter (← orMalformed (do
    return {
      name := ← some name
      value := ← Scalar.ofJson? value.toJson
      type := ← ValueType.ofJson? type.toJson })) : Except Fault Node) = _
  rw [hvalue, htype]
  rfl

/-! ## Nodes -/

namespace Node

/-- An object is read by the kind that its tag names. -/
theorem read_obj {nested : Bool} {k : Kind} {ms : Members}
    (htag : ms.lookup "type" = some (.str k.tag)) :
    read nested (.obj ms) = ofMembers k ms (childrenOf ms) (parametersOf ms) := by
  have hkind : kindOf? nested ms = some k := by
    unfold kindOf?
    rw [htag]
    exact k.ofTag?_tag
  unfold read
  rw [hkind]

theorem parameters_map (ps : List Parameter) : parameters (ps.map parameterJson) = .ok ps := by
  induction ps with
  | nil => rfl
  | cons p ps ih =>
    show (do
      let n ← read true (parameterJson p)
      let q ← n.toParameter
      return q :: (← parameters (ps.map parameterJson))) = _
    rw [read_parameterJson, ih]
    rfl

theorem readProperty_toJson (p : Property) : readProperty p.toJson = .ok p := by
  unfold readProperty
  rw [Property.ofJson?_toJson]
  rfl

theorem parametersOf_append (p f : Property) (ps : List Parameter) :
    parametersOf ([("type", .str Kind.reduce.tag), ("property", p.toJson),
      ("reduce", f.toJson)] ++ parameterMembers ps) = .ok ps := by
  cases ps with
  | nil => rfl
  | cons q qs => exact parameters_map (q :: qs)

theorem readReduce_of_lookup {ms : Members} {p f : Property} {ps : List Parameter}
    (hp : ms.lookup "property" = some p.toJson) (hf : ms.lookup "reduce" = some f.toJson) :
    readReduce ms (.ok ps) = .ok (reduce p f ps) := by
  unfold readReduce
  dsimp only [bind, Except.bind]
  rw [readField_of_lookup hp, readField_of_lookup hf, readProperty_toJson, readProperty_toJson,
    firstFault_of_none]
  · rfl
  · simp [fault?]

theorem read_reduce (nested : Bool) (p f : Property) (ps : List Parameter) :
    read nested (reduce p f ps).toJson = .ok (reduce p f ps) := by
  show readReduce ([("type", .str Kind.reduce.tag), ("property", p.toJson),
    ("reduce", f.toJson)] ++ parameterMembers ps) (parametersOf _) = _
  rw [parametersOf_append]
  exact readReduce_of_lookup rfl rfl

theorem read_groupBy (nested : Bool) (p : Property) (interval : Option Property) :
    read nested (groupBy p interval).toJson = .ok (groupBy p interval) := by
  have hp := readProperty_toJson p
  cases interval with
  | none =>
    show (do return groupBy (← readProperty p.toJson) none : Except Fault Node) = _
    rw [hp]
    rfl
  | some w =>
    have hw := readProperty_toJson w
    show (do
      return groupBy (← readProperty p.toJson) (← (readProperty w.toJson).map some)) = _
    rw [hp, hw]
    rfl

theorem read_clause (nested : Bool) (c : Connective) {items : List Json} {children : List Node}
    (h : nodes items = .ok children) :
    read nested (.obj [("type", .str (Kind.clause c).tag), ("expressions", .arr items)]) =
      .ok (clause c children) := by
  rw [read_obj List.lookup_cons_self]
  show (do return clause c (← nodes items) : Except Fault Node) = _
  rw [h]
  rfl

mutual

/-- **Every node is read back** from its stored form, on its own or within another. -/
theorem read_toJson (nested : Bool) : ∀ n : Node, read nested n.toJson = .ok n
  | property p => by
    have hp := readProperty_toJson p
    show (do return property (← readProperty p.toJson) : Except Fault Node) = _
    rw [hp]
    rfl
  | operator p o => by
    have hp := readProperty_toJson p
    have ho := Operator.ofJson?_toJson o
    show (do
      return operator (← readProperty p.toJson) (← orMalformed (Operator.ofJson? o.toJson))) = _
    rw [hp, ho]
    rfl
  | reduce p f ps => read_reduce nested p f ps
  | groupBy p interval => read_groupBy nested p interval
  | parameter p => read_parameterJson nested p
  | clause c children => read_clause nested c (nodes_toJsons children)

theorem nodes_toJsons : ∀ ns : List Node, nodes (toJsons ns) = .ok ns
  | [] => rfl
  | n :: ns => by
    have hn := read_toJson true n
    have hns := nodes_toJsons ns
    show (do return (← read true (toJson n)) :: (← nodes (toJsons ns)) :
      Except Fault (List Node)) = _
    rw [hn, hns]
    rfl

end

theorem ofJson_toJson (n : Node) : ofJson n.toJson = .ok n := read_toJson false n

/-! ## Lists in place of objects -/

theorem closeList_of_length_le {α : Type} {names : List String} {items : List Json}
    (h : items.length ≤ names.length) (r : Except Fault α) : closeList names items r = r := by
  cases r with
  | error f => rfl
  | ok v => exact if_pos h

/-- **A list of its fields says the same as an object**: what follows the tag stands for the first
fields of the kind. -/
theorem read_list (nested : Bool) (k : Kind) {xs : List Json}
    (h : xs.length ≤ k.fieldNames.length) :
    read nested (.arr (.str k.tag :: xs)) =
      read nested (.obj (("type", .str k.tag) :: k.fieldNames.zip xs)) := by
  have htag : Kind.ofJson? nested (.str k.tag) = some k := k.ofTag?_tag
  rw [read_obj List.lookup_cons_self]
  unfold read
  rw [htag]
  dsimp only
  rw [closeList_of_length_le h]
  -- no field is called "type", so each is found behind the tag as it is without it
  cases k with
  | property | operator | groupBy | parameter => rfl
  | reduce =>
    match xs with
    | [] | [_] | [_, _] | _ :: _ :: _ :: _ => rfl
  | clause c =>
    match xs with
    | [] | _ :: _ => rfl

/-- A clause as a list; the node in it has its place among the kinds for a tag. -/
example : ofJson (.arr [.str "and", .arr [.arr [.num (.integer 0 rfl), .arr [.str "A"]]]]) =
    .ok (.clause .all [.property ⟨"A", .string⟩]) := rfl

end Node

theorem readAs_toJson {α : Type} (view : Node → Except Fault α) (n : Node) :
    readAs view n.toJson = view n := by
  unfold readAs
  rw [Node.ofJson_toJson]
  rfl

/-! ## Clauses -/

section Clauses

theorem toClause_toNode {α : Type} {view : Node → Except Fault α} {item : α → Node}
    {c : Clause α} (h : ∀ x ∈ c.items, view (item x) = .ok x) :
    Node.toClause c.connective view (c.toNode item) = .ok c := by
  have hitems := mapM_map_of_forall h
  show (if c.connective = c.connective then
    (do return ⟨c.connective, ← (c.items.map item).mapM view⟩ : Except Fault (Clause α))
    else .error _) = _
  rw [if_pos rfl, hitems]
  rfl

end Clauses

end Kusto.Draft

namespace Kusto

open Draft

/-! ## Drafts -/

/-- The clauses have the connectives that the editor gives them: alternatives of conditions, all of
which hold, and all aggregations and groupings. -/
structure Draft.IsProper (d : Draft) : Prop where
  filter : d.filter.connective = .all
  groups : ∀ g ∈ d.filter.items, g.connective = .any
  aggregations : d.aggregations.connective = .all
  groupings : d.groupings.connective = .all

namespace Draft

variable {d : Draft}

theorem readSource_toJson (p : Property) : readSource (Node.property p).toJson = .ok p :=
  readAs_toJson Node.toProperty (.property p)

theorem toFilter_filterNode (h : d.IsProper) :
    Node.toFilter (filterNode d.filter) = .ok d.filter := by
  have hgroup : ∀ g ∈ d.filter.items,
      Node.toAlternatives (Clause.toNode Condition.toNode g) = .ok g := by
    intro g hg
    have hitems : Node.toClause g.connective Node.toCondition (g.toNode Condition.toNode) =
        .ok g := toClause_toNode fun c _ => rfl
    rw [h.groups g hg] at hitems
    exact hitems
  have hall := toClause_toNode hgroup
  rw [h.filter] at hall
  exact hall

theorem toAggregations_aggregationsNode (h : d.IsProper) :
    Node.toAggregations (aggregationsNode d.aggregations) = .ok d.aggregations := by
  have hall : Node.toClause d.aggregations.connective Node.toAggregation
      (aggregationsNode d.aggregations) = .ok d.aggregations := toClause_toNode fun a _ => rfl
  rw [h.aggregations] at hall
  exact hall

theorem toGroupings_groupingsNode (h : d.IsProper) :
    Node.toGroupings (groupingsNode d.groupings) = .ok d.groupings := by
  have hall : Node.toClause d.groupings.connective Node.toGrouping
      (groupingsNode d.groupings) = .ok d.groupings := toClause_toNode fun g _ => rfl
  rw [h.groupings] at hall
  exact hall

theorem readFilter_toJson (h : d.IsProper) :
    readFilter (filterNode d.filter).toJson = .ok d.filter :=
  (readAs_toJson Node.toFilter _).trans (toFilter_filterNode h)

theorem readAggregations_toJson (h : d.IsProper) :
    readAggregations (aggregationsNode d.aggregations).toJson = .ok d.aggregations :=
  (readAs_toJson Node.toAggregations _).trans (toAggregations_aggregationsNode h)

theorem readGroupings_toJson (h : d.IsProper) :
    readGroupings (groupingsNode d.groupings).toJson = .ok d.groupings :=
  (readAs_toJson Node.toGroupings _).trans (toGroupings_groupingsNode h)

/-- A draft is read if its fields are. -/
theorem ofJson_of_fields {ms : Members}
    (hs : readField ms "from" (orNull readSource) = d.source.map fun p => .ok (some p))
    (hf : readField ms "where" readFilter = some (.ok d.filter))
    (ha : readField ms "reduce" readAggregations = some (.ok d.aggregations))
    (hg : readField ms "groupBy" readGroupings = some (.ok d.groupings)) :
    Draft.ofJson (.obj ms) = .ok d := by
  show Draft.ofMembers ms = .ok d
  unfold Draft.ofMembers
  dsimp only [bind, Except.bind]
  rw [hs, hf, ha, hg, firstFault_of_none]
  · obtain ⟨source, filter, aggregations, groupings⟩ := d
    cases source <;> rfl
  · cases d.source <;> simp [fault?]

/-- The members of the stored form. -/
def members (d : Draft) : Members :=
  Json.present "from" (fun p => (Node.property p).toJson) d.source ++
    [("where", (filterNode d.filter).toJson),
      ("reduce", (aggregationsNode d.aggregations).toJson),
      ("groupBy", (groupingsNode d.groupings).toJson)]

theorem toJson_eq (d : Draft) : d.toJson = .obj d.members := rfl

theorem lookup_from (d : Draft) :
    d.members.lookup "from" = d.source.map fun p => (Node.property p).toJson := by
  obtain ⟨source, filter, aggregations, groupings⟩ := d
  cases source <;> rfl

theorem lookup_where (d : Draft) :
    d.members.lookup "where" = some (filterNode d.filter).toJson := by
  obtain ⟨source, filter, aggregations, groupings⟩ := d
  cases source <;> rfl

theorem lookup_reduce (d : Draft) :
    d.members.lookup "reduce" = some (aggregationsNode d.aggregations).toJson := by
  obtain ⟨source, filter, aggregations, groupings⟩ := d
  cases source <;> rfl

theorem lookup_groupBy (d : Draft) :
    d.members.lookup "groupBy" = some (groupingsNode d.groupings).toJson := by
  obtain ⟨source, filter, aggregations, groupings⟩ := d
  cases source <;> rfl

/-- **A proper draft is read back** from its stored form. -/
theorem ofJson_toJson (h : d.IsProper) : Draft.ofJson d.toJson = .ok d := by
  have hs : readField d.members "from" (orNull readSource) =
      d.source.map fun p => .ok (some p) := by
    unfold readField
    rw [lookup_from]
    cases d.source with
    | none => rfl
    | some p =>
      show some ((readSource (Node.property p).toJson).map some) = _
      rw [readSource_toJson]
      rfl
  have hf : readField d.members "where" readFilter = some (.ok d.filter) := by
    rw [readField_of_lookup d.lookup_where, readFilter_toJson h]
  have ha : readField d.members "reduce" readAggregations = some (.ok d.aggregations) := by
    rw [readField_of_lookup d.lookup_reduce, readAggregations_toJson h]
  have hg : readField d.members "groupBy" readGroupings = some (.ok d.groupings) := by
    rw [readField_of_lookup d.lookup_groupBy, readGroupings_toJson h]
  exact ofJson_of_fields hs hf ha hg

end Draft

end Kusto
