import Kusto.Proofs.Draft.RoundTrip
import Kusto.Proofs.Legacy.Document
import Kusto.Proofs.Outcome

/-!
# The content of old documents — nothing is lost in the upgrade

Every node of an old document is rebuilt to a node that is read as what it says, and a clause to
the clause of its nodes, from left to right.  So the draft that is loaded says what the document
says (`loadDraft_of_says`).
-/

open Kusto.Json (Members)

namespace Kusto.Legacy

open Draft (Node Scalar Operand Operator Parameter Condition Aggregation Grouping Clause)

/-! ## Fields -/

section Fields

variable {j : Json} {ms : Members}

theorem ofName_of_unknown {s : String} (h : ∀ u : ValueType, s ≠ u.name) :
    ValueType.ofName s = .string := by
  have hfind : ValueType.all.find? (·.name = s) = none := by
    rw [List.find?_eq_none]
    intro u _
    simpa using Ne.symm (h u)
  unfold ValueType.ofName
  rw [hfind]
  rfl

/-- A type is read as it is named, also where only a text or nothing may name it. -/
theorem ofName_of_namesType {s : String} {t : ValueType} (h : NamesType (some (.str s)) t) :
    ValueType.ofName s = t := by
  rcases h with h | ⟨rfl, h⟩
  · obtain rfl : s = t.name := by simpa using h
    exact ValueType.ofName_name t
  · exact ofName_of_unknown fun u hu => h u (by rw [hu])

theorem fieldType_of_namesType {o : Option Json} {t : ValueType} (h : NamesType o t) :
    fieldType o = t := by
  have hother : o ≠ some (.str t.name) → t = .string := by
    intro hne
    rcases h with h | ⟨h, -⟩
    · exact absurd h hne
    · exact h
  cases o with
  | none => exact (hother (by simp)).symm
  | some j =>
    cases j with
    | str s => exact ofName_of_namesType h
    | _ => exact (hother (by simp)).symm

theorem property_of_isField {p : Property} (h : IsField j p) : property? j = some p.toJson := by
  cases h with
  | @mk ms p _ value name type =>
    have hvalue : (Json.obj ms).member? "value" = some (.str p.name) := value
    unfold property?
    rw [hvalue]
    dsimp only
    rw [if_neg name]
    exact congrArg (fun t => some (Property.toJson ⟨p.name, t⟩)) (fieldType_of_namesType type)

theorem fieldOf_of_isField {p : Property} {field : Json} (hf : ms.lookup "field" = some field)
    (h : IsField field p) : fieldOf? (.obj ms) = some p.toJson := by
  show (ms.lookup "field").bind property? = _
  rw [hf]
  exact property_of_isField h

theorem textAt_of_isValue {key s : String} {v : Json} (hv : ms.lookup key = some v)
    (h : IsValue v s) : textAt (.obj ms) [key, "value"] = s := by
  cases h with
  | mk _ value =>
    have hmember : (Json.obj ms).member? key = some (.obj _) := hv
    unfold textAt
    rw [path_pair, hmember]
    show ((List.lookup "value" _).bind Json.text?).getD "" = s
    rw [value]
    rfl

end Fields

/-! ## Nodes -/

section Nodes

variable {j : Json}

theorem keptMember_of_isOperand {ms : Members} {key : String} {v : Option Operand}
    (h : IsOperand (ms.lookup key) v) :
    keptMember (.obj ms) key = Json.present key Operand.toJson v := by
  have hmember : (Json.obj ms).member? key = ms.lookup key := rfl
  unfold keptMember
  rw [hmember]
  rcases h with h | ⟨h, rfl⟩
  · rw [h]
    cases v with
    | none => rfl
    | some o =>
      cases o with
      | one s => cases s <;> rfl
      | many ss => rfl
  · rw [h]
    rfl

theorem condition_of_isCondition {c : Condition} (h : IsCondition j c) :
    condition? j = some c.toNode.toJson := by
  cases h with
  | @mk ms p o field operator _ _ field_eq isField operator_eq isOperator =>
    cases isOperator with
    | @mk os _ _ name value label =>
      have hoperator : operatorJson (.obj ms) = o.toJson := by
        have hmember : ((Json.obj ms).member? "operator").getD .null = .obj os := by
          show (ms.lookup "operator").getD .null = _
          rw [operator_eq]
          rfl
        have hname : ((Json.obj os).member? "name").getD (.str "") = .str o.name := by
          show (os.lookup "name").getD _ = _
          rw [name]
          rfl
        unfold operatorJson
        dsimp only
        rw [hmember, hname, keptMember_of_isOperand value, keptMember_of_isOperand label]
        rfl
      unfold condition?
      rw [fieldOf_of_isField field_eq isField, Option.map_some, hoperator]
      rfl

theorem grouping_of_isGrouping {g : Grouping} (h : IsGrouping j g) :
    grouping? j = some g.toNode.toJson := by
  cases h with
  | @mk ms p i field _ _ field_eq isField interval =>
    unfold grouping?
    rw [fieldOf_of_isField field_eq isField, Option.map_some]
    rcases interval with ⟨hnone, rfl⟩ | ⟨width, s, hwidth, isValue, rfl⟩
    · have htext : textAt (.obj ms) ["interval", "value"] = "" := by
        have hmember : (Json.obj ms).member? "interval" = none := hnone
        unfold textAt
        rw [path_pair, hmember]
        rfl
      dsimp only
      rw [htext]
      rfl
    · dsimp only
      rw [textAt_of_isValue hwidth isValue]
      split
      · rfl
      · rfl

/-- A type that nobody knows is text, for the reader as for the upgrade. -/
theorem readType_of_namesType {ms : Members} {key : String} {t : ValueType}
    (h : NamesType (ms.lookup key) t)
    (htext : ∀ j, ms.lookup key = some j → j = .null ∨ ∃ s, j = .str s) :
    ms.withDefault key .string ValueType.ofJson? = some t := by
  unfold Json.Members.withDefault
  cases hkey : ms.lookup key with
  | none =>
    rw [hkey] at h
    exact congrArg some (fieldType_of_namesType h)
  | some j =>
    rw [hkey] at h
    rcases htext j hkey with rfl | ⟨s, rfl⟩
    · exact congrArg some (fieldType_of_namesType h)
    · exact congrArg some (ofName_of_namesType h)

theorem read_of_isParameter {q : Parameter} (h : IsParameter j q) :
    Node.read true j = .ok (.parameter q) := by
  cases h with
  | @mk ms q _ tag name value type text =>
    have hname : ms.required "name" Json.text? = some q.name := by
      unfold Json.Members.required
      rw [name]
      rfl
    have hvalue : ms.withDefault "value" (.text "") Scalar.ofJson? = some q.value := by
      unfold Json.Members.withDefault
      rcases value with h | ⟨h, hq⟩
      · rw [h]
        exact Scalar.ofJson?_toJson q.value
      · rw [h, hq]
    have hread : Node.readParameter ms = .ok q := by
      unfold Node.readParameter
      rw [hname, hvalue, readType_of_namesType type text]
      rfl
    rw [Node.read_obj (k := .parameter) tag]
    show (do return Node.parameter (← Node.readParameter ms) : Except Draft.Fault Node) = _
    rw [hread]
    rfl

theorem isParameter_of_isParameter {q : Parameter} (h : IsParameter j q) : isParameter j := by
  cases h with
  | @mk ms q _ tag =>
    have htag : ((Json.obj ms).member? "type").bind Json.text? = some "functionParameter" := by
      show (ms.lookup "type").bind Json.text? = _
      rw [tag]
      rfl
    exact decide_eq_true htag

theorem filter_isParameter {js : List Json} {ps : List Parameter}
    (h : List.Forall₂ IsParameter js ps) : js.filter isParameter = js := by
  induction h with
  | nil => rfl
  | cons hq _ ih => rw [List.filter_cons_of_pos (isParameter_of_isParameter hq), ih]

theorem parameters_of_forall {js : List Json} {ps : List Parameter}
    (h : List.Forall₂ IsParameter js ps) : Node.parameters js = .ok ps := by
  induction h with
  | nil => rfl
  | @cons j q js ps hq _ ih =>
    show (do
      let n ← Node.read true j
      let p ← n.toParameter
      return p :: (← Node.parameters js)) = _
    rw [read_of_isParameter hq, ih]
    rfl

theorem parametersOf_of_isParameters {ms : Members} {ps : List Parameter}
    (h : IsParameters (ms.lookup "parameters") ps) :
    List.Forall₂ IsParameter (parametersOf (.obj ms)) ps := by
  have hmember : (Json.obj ms).member? "parameters" = ms.lookup "parameters" := rfl
  unfold parametersOf
  rw [hmember]
  rcases h with ⟨h, rfl⟩ | ⟨js, h, hall⟩
  · rw [h]
    exact .nil
  · rw [h]
    show List.Forall₂ IsParameter (js.filter isParameter) ps
    rw [filter_isParameter hall]
    exact hall

theorem aggregation_of_isAggregation {a : Aggregation} (h : IsAggregation j a) :
    ∃ item, aggregation? j = some item ∧ Node.read true item = .ok a.toNode := by
  cases h with
  | @mk ms p name ps field function _ _ field_eq isField function_eq isValue parameters =>
    have hps := parametersOf_of_isParameters parameters
    unfold aggregation?
    rw [fieldOf_of_isField field_eq isField, Option.map_some]
    dsimp only
    rw [textAt_of_isValue function_eq isValue]
    refine ⟨_, rfl, ?_⟩
    -- an empty list of parameters is not written at all
    cases hjs : parametersOf (.obj ms) with
    | nil =>
      rw [hjs] at hps
      cases hps
      exact Draft.Node.readReduce_of_lookup rfl rfl
    | cons q qs =>
      rw [hjs] at hps
      have hread := parameters_of_forall hps
      show Node.readReduce _ (Node.parameters (q :: qs)) = _
      rw [hread]
      exact Draft.Node.readReduce_of_lookup rfl rfl

end Nodes

/-! ## Clauses -/

section Clauses

variable {α : Type} {Leaf : Json → α → Prop} {tag : String}

theorem isOld_of_lookup {ms : Members} {field : Json} (ht : ms.lookup "type" = some (.str tag))
    (hf : ms.lookup "field" = some field) : isOld tag ms := by
  have htag : (ms.lookup "type").bind Json.text? = some tag := by rw [ht]; rfl
  unfold isOld
  rw [hf, decide_eq_true htag]
  rfl

theorem oldNodes_of_isOld {ms : Members} (h : isOld tag ms) :
    oldNodes tag (.obj ms) = [.obj ms] :=
  if_pos h

theorem oldNodesBelow_eq {ms : Members} {v : Json} (h : ms.lookup "expressions" = some v) :
    oldNodesBelow tag ms = oldNodes tag v := by
  induction ms with
  | nil => exact absurd h (by simp)
  | cons m ms ih =>
    obtain ⟨k, w⟩ := m
    unfold oldNodesBelow
    by_cases hk : k = "expressions"
    · rw [if_pos hk]
      rw [hk, List.lookup_cons_self] at h
      rw [Option.some.inj h]
    · have hne : ("expressions" == k) = false := by simpa using fun e => hk e.symm
      rw [if_neg hk]
      rw [List.lookup_cons, hne] at h
      exact ih h

theorem forall_oldNodesIn {bs : List (Branch α)}
    (h : ∀ b ∈ bs, List.Forall₂ Leaf (oldNodes tag b.json) b.leaves) :
    List.Forall₂ Leaf (oldNodesIn tag (bs.map Branch.json)) (bs.flatMap Branch.leaves) := by
  induction bs with
  | nil => exact .nil
  | cons b bs ih =>
    rw [List.flatMap_cons]
    exact List.rel_append (h b (by simp)) (ih fun c hc => h c (by simp [hc]))

/-- The old nodes of a clause are its leaves, from left to right. -/
theorem forall_oldNodes (hleaf : ∀ j x, Leaf j x → oldNodes tag j = [j])
    (htag : ¬ IsContainer tag) {j : Json} {xs : List α} {old : Bool} (h : Nest Leaf j xs old) :
    List.Forall₂ Leaf (oldNodes tag j) xs := by
  induction h with
  | @leaf j x h =>
    rw [hleaf j x h]
    exact .cons h .nil
  | array _ ih => exact forall_oldNodesIn ih
  | @container ms tag' bs record isContainer tag_eq children _ ih =>
    -- the tag of a container is none of a node, so the children are looked at
    have hne : tag' ≠ tag := fun heq => htag (heq ▸ isContainer)
    have hold : isOld tag ms = false := by
      unfold isOld
      rw [tag_eq]
      simp [Json.text?, hne]
    show List.Forall₂ Leaf (if isOld tag ms then [.obj ms] else oldNodesBelow tag ms) _
    rw [hold, if_neg (by decide), oldNodesBelow_eq children]
    exact forall_oldNodesIn ih

variable {rebuild : Json → Option Json} {node : α → Node}

theorem nodes_of_forall
    (hleaf : ∀ j x, Leaf j x → ∃ item, rebuild j = some item ∧ Node.read true item = .ok (node x))
    {js : List Json} {xs : List α} (h : List.Forall₂ Leaf js xs) :
    Node.nodes (js.filterMap rebuild) = .ok (xs.map node) := by
  induction h with
  | nil => rfl
  | @cons j x js xs hx _ ih =>
    obtain ⟨item, hitem, hnode⟩ := hleaf j x hx
    rw [List.filterMap_cons_some hitem, Node.nodes, hnode, ih]
    rfl

/-- The rebuilt nodes of a clause are read as what its leaves say. -/
theorem nodes_rebuilt {ms : Members} {clause : String} {xs : List α} {old : Bool}
    (hold : ∀ j x, Leaf j x → oldNodes tag j = [j]) (htag : ¬ IsContainer tag)
    (hleaf : ∀ j x, Leaf j x → ∃ item, rebuild j = some item ∧ Node.read true item = .ok (node x))
    (h : IsClause Leaf (ms.lookup clause) xs old) :
    Node.nodes (rebuilt ms clause tag rebuild) = .ok (xs.map node) := by
  unfold rebuilt
  rcases h with ⟨h, rfl, -⟩ | ⟨v, h, hnest⟩
  · rw [h]
    rfl
  · rw [h]
    exact nodes_of_forall hleaf (forall_oldNodes hold htag hnest)

theorem read_clauseJson (nested : Bool) (c : Connective) {items : List Json} {ns : List Node}
    (h : Node.nodes items = .ok ns) :
    Node.read nested (clauseJson c items) = .ok (.clause c ns) :=
  Node.read_clause nested c h

/-- Each node a group of its own. -/
theorem nodes_groups {items : List Json} {ns : List Node} (h : Node.nodes items = .ok ns) :
    Node.nodes (items.map fun j => clauseJson .any [j]) =
      .ok (ns.map fun n => .clause .any [n]) := by
  induction items generalizing ns with
  | nil =>
    obtain rfl := Except.ok.inj h
    rfl
  | cons j items ih =>
    rw [Node.nodes] at h
    obtain ⟨n, hn, h⟩ := exists_of_bind_ok h
    obtain ⟨ms, hms, h⟩ := exists_of_bind_ok h
    obtain rfl := Except.ok.inj h
    have hj : Node.nodes [j] = .ok [n] := by
      rw [Node.nodes, hn]
      rfl
    rw [List.map_cons, Node.nodes, read_clauseJson true .any hj, ih hms]
    rfl

theorem readAs_of_ofJson {β : Type} {view : Node → Except Draft.Fault β} {j : Json} {n : Node}
    (h : Node.ofJson j = .ok n) : Draft.readAs view j = view n := by
  unfold Draft.readAs
  rw [h]
  rfl

end Clauses

/-! ## Documents -/

section Documents

variable {ms : Members} {c : Content}

theorem isProper_draft (c : Content) : c.draft.IsProper where
  filter := rfl
  groups := by
    intro g hg
    obtain ⟨x, -, rfl⟩ := List.mem_map.mp hg
    rfl
  aggregations := rfl
  groupings := rfl

theorem source_of_hasSource {source : Option Property} (h : HasSource (ms.lookup "from") source) :
    (ms.lookup "from").bind source? = source.map fun p => (Node.property p).toJson := by
  rcases h with ⟨h, rfl⟩ | ⟨v, p, h, hsource, rfl⟩
  · rw [h]
    rfl
  · cases hsource with
    | @mk fs p field _ field_eq isField =>
      have hfield : ((Json.obj fs).member? "expression").getD (.obj fs) = field := by
        show (fs.lookup "expression").getD _ = _
        rw [field_eq]
        rfl
      rw [h]
      show (property? _).map _ = _
      rw [hfield, property_of_isField isField]
      rfl

theorem readFilter_rebuilt {w : Bool}
    (h : IsClause IsCondition (ms.lookup "where") c.conditions w) :
    Draft.readFilter (clauseJson .all
      ((rebuilt ms "where" "fieldAndOperator" condition?).map fun j => clauseJson .any [j])) =
        .ok c.draft.filter := by
  have hold : ∀ j x, IsCondition j x → oldNodes "fieldAndOperator" j = [j] := by
    intro j x hx
    cases hx with
    | mk _ tag field_eq => exact oldNodes_of_isOld (isOld_of_lookup tag field_eq)
  have hnodes := nodes_rebuilt hold (by decide)
    (fun j x hx => ⟨_, condition_of_isCondition hx, Node.read_toJson true x.toNode⟩) h
  have hclause := read_clauseJson false .all (nodes_groups hnodes)
  have hfilter : Node.clause .all ((c.conditions.map Condition.toNode).map fun n =>
      .clause .any [n]) = Draft.filterNode c.draft.filter := by
    show _ = Node.clause .all
      ((c.conditions.map fun x => Clause.any [x]).map (Clause.toNode Condition.toNode))
    rw [List.map_map, List.map_map]
    rfl
  rw [hfilter] at hclause
  exact (readAs_of_ofJson hclause).trans (Draft.toFilter_filterNode (isProper_draft c))

theorem readAggregations_rebuilt {r : Bool}
    (h : IsClause IsAggregation (ms.lookup "reduce") c.aggregations r) :
    Draft.readAggregations (clauseJson .all (rebuilt ms "reduce" "reduce" aggregation?)) =
      .ok c.draft.aggregations := by
  have hold : ∀ j x, IsAggregation j x → oldNodes "reduce" j = [j] := by
    intro j x hx
    cases hx with
    | mk _ tag field_eq => exact oldNodes_of_isOld (isOld_of_lookup tag field_eq)
  have hnodes := nodes_rebuilt hold (by decide) (fun j x hx => aggregation_of_isAggregation hx) h
  have hclause := read_clauseJson false .all hnodes
  exact (readAs_of_ofJson hclause).trans
    (Draft.toAggregations_aggregationsNode (isProper_draft c))

theorem readGroupings_rebuilt {g : Bool}
    (h : IsClause IsGrouping (ms.lookup "groupBy") c.groupings g) :
    Draft.readGroupings (clauseJson .all (rebuilt ms "groupBy" "groupBy" grouping?)) =
      .ok c.draft.groupings := by
  have hold : ∀ j x, IsGrouping j x → oldNodes "groupBy" j = [j] := by
    intro j x hx
    cases hx with
    | mk _ tag field_eq => exact oldNodes_of_isOld (isOld_of_lookup tag field_eq)
  have hnodes := nodes_rebuilt hold (by decide)
    (fun j x hx => ⟨_, grouping_of_isGrouping hx, Node.read_toJson true x.toNode⟩) h
  have hclause := read_clauseJson false .all hnodes
  exact (readAs_of_ofJson hclause).trans (Draft.toGroupings_groupingsNode (isProper_draft c))

/-- A rebuilt document is read as what the old one says. -/
theorem ofJson_rebuild (h : Says ms c) : Draft.ofJson (rebuild ms) = .ok c.draft := by
  obtain ⟨source, conditions, aggregations, groupings, -⟩ := h
  have hsource := source_of_hasSource source
  unfold rebuild
  dsimp only
  rw [hsource]
  -- the source is written only if there is one, the clauses always
  refine Draft.ofJson_of_fields ?_ ?_ ?_ ?_
  · cases hs : c.source with
    | none =>
      show none = c.source.map _
      rw [hs]
      rfl
    | some p =>
      show some ((Draft.readSource (Node.property p).toJson).map some) = c.source.map _
      rw [Draft.readSource_toJson, hs]
      rfl
  · rw [← readFilter_rebuilt conditions]
    cases c.source <;> rfl
  · rw [← readAggregations_rebuilt aggregations]
    cases c.source <;> rfl
  · rw [← readGroupings_rebuilt groupings]
    cases c.source <;> rfl

/-- **Nothing is lost in the upgrade.**  A document that says something old is of the older
generation, and the draft that is loaded says what the document says. -/
theorem loadDraft_of_says (h : Says ms c) :
    shape (.obj ms) = .legacy ∧ loadDraft (.obj ms) = c.draft := by
  have hshape := shape_of_says h
  have hupgrade : upgrade (.obj ms) = rebuild ms := by
    unfold upgrade
    rw [show isLegacy (.obj ms) = true from decide_eq_true hshape]
    rfl
  refine ⟨hshape, ?_⟩
  unfold loadDraft
  rw [hupgrade]
  dsimp only
  rw [ofJson_rebuild h]

end Documents

/-! ### A document with all of its parts -/

section Stored

/-- A field as older editors stored it. -/
def storedField (name type : String) : Json :=
  .obj [("type", .str "field"), ("value", .str name), ("fieldType", .str type)]

def storedCondition : Json :=
  .obj [("type", .str "fieldAndOperator"), ("field", storedField "Level" "string"),
    ("operator", .obj [("name", .str "=="), ("value", .str "Error")])]

def storedAggregation : Json :=
  .obj [("type", .str "reduce"), ("field", storedField "Duration" "number"),
    ("reduce", .obj [("type", .str "function"), ("value", .str "percentile")]),
    ("parameters", .arr [.obj [("type", .str "functionParameter"), ("name", .str "percentile"),
      ("value", .str "95"), ("fieldType", .str "number")]])]

def storedGrouping : Json :=
  .obj [("type", .str "groupBy"), ("field", storedField "Timestamp" "dateTime"),
    ("interval", .obj [("type", .str "interval"), ("value", .str "5m")])]

def storedContainer (tag : String) (child : Json) : Json :=
  .obj [("type", .str tag), ("expressions", .arr [child])]

def stored : Members :=
  [("from", .obj [("expression", storedField "Events" "string")]),
    ("where", storedContainer "and" (storedContainer "operatorRepeater" storedCondition)),
    ("reduce", .arr [storedAggregation]),
    ("groupBy", storedContainer "and" storedGrouping)]

def storedContent : Content where
  source := some ⟨"Events", .string⟩
  conditions := [⟨⟨"Level", .string⟩, ⟨"==", some (.one (.text "Error")), none⟩⟩]
  aggregations := [⟨⟨"Duration", .number⟩, ⟨"percentile", .function⟩,
    [⟨"percentile", .text "95", .number⟩]⟩]
  groupings := [⟨⟨"Timestamp", .dateTime⟩, some ⟨"5m", .interval⟩⟩]

theorem isField_storedField {name : String} (h : name ≠ "") (t : ValueType) :
    IsField (storedField name t.name) ⟨name, t⟩ :=
  .mk ⟨by simp, by simp, by simp, by simp [List.lookup_cons], by simp [IsPlain]⟩ rfl h (.inl rfl)

theorem isCondition_stored : IsCondition storedCondition ⟨⟨"Level", .string⟩,
    ⟨"==", some (.one (.text "Error")), none⟩⟩ :=
  .mk (by decide) rfl rfl (isField_storedField (by decide) .string) rfl
    (.mk (by decide) rfl (.inl rfl) (.inl rfl))

theorem isAggregation_stored : IsAggregation storedAggregation ⟨⟨"Duration", .number⟩,
    ⟨"percentile", .function⟩, [⟨"percentile", .text "95", .number⟩]⟩ :=
  .mk (by decide) rfl rfl (isField_storedField (by decide) .number) rfl (.mk (by decide) rfl)
    (.inr ⟨_, rfl, .cons (.mk (by decide) rfl rfl (.inl rfl) (.inl rfl)
      fun _ h => .inr ⟨_, (Option.some.inj h).symm⟩) .nil⟩)

theorem isGrouping_stored : IsGrouping storedGrouping
    ⟨⟨"Timestamp", .dateTime⟩, some ⟨"5m", .interval⟩⟩ :=
  .mk (by decide) rfl rfl (isField_storedField (by decide) .dateTime)
    (.inr ⟨_, "5m", rfl, .mk (by decide) rfl, rfl⟩)

theorem nest_storedContainer {α : Type} {Leaf : Json → α → Prop} {tag : String} {child : Json}
    {xs : List α} {old : Bool} (ht : IsContainer tag) (h : Nest Leaf child xs old) :
    Nest Leaf (storedContainer tag child) xs (tag = "operatorRepeater" || old) := by
  have hoperator : tag ≠ "operator" := by
    rintro rfl
    exact absurd ht (by decide)
  have hproperty : tag ≠ "property" := by
    rintro rfl
    exact absurd ht (by decide)
  have hrecord : IsRecord ["expressions"]
      [("type", .str tag), ("expressions", .arr [Branch.json ⟨child, xs, old⟩])] :=
    ⟨by simp, by simp [hoperator], by simp [hproperty], by simp [List.lookup_cons],
      by simp [IsPlain]⟩
  have hall : ∀ b ∈ [(⟨child, xs, old⟩ : Branch α)], Nest Leaf b.json b.leaves b.old := by
    simpa using h
  have hnest := Nest.container hrecord ht rfl rfl hall
  unfold storedContainer
  simpa using hnest

theorem says_stored : Says stored storedContent := by
  have hand : IsContainer "and" := .inl rfl
  have hrepeater : IsContainer "operatorRepeater" := by decide
  have hwhere := nest_storedContainer hand
    (nest_storedContainer hrepeater (.leaf isCondition_stored))
  have hgroup := nest_storedContainer hand (.leaf isGrouping_stored)
  have hall : ∀ b ∈ [(⟨storedAggregation, storedContent.aggregations, true⟩ : Branch _)],
      Nest IsAggregation b.json b.leaves b.old := by
    simpa using .leaf isAggregation_stored
  have hsource : HasSource (some (.obj [("expression", storedField "Events" "string")]))
      (some ⟨"Events", .string⟩) :=
    .inr ⟨_, _, rfl, .mk (by decide) rfl (isField_storedField (by decide) .string), rfl⟩
  exact .mk hsource (.inr ⟨_, rfl, hwhere⟩) (.inr ⟨_, rfl, .array hall⟩)
    (.inr ⟨_, rfl, hgroup⟩) rfl

theorem loadDraft_stored :
    Says stored storedContent ∧ shape (.obj stored) = .legacy ∧
      loadDraft (.obj stored) = storedContent.draft :=
  ⟨says_stored, loadDraft_of_says says_stored⟩

end Stored

end Kusto.Legacy
