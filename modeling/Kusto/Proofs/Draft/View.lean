import Kusto.Proofs.Draft.RoundTrip
import Kusto.Proofs.Outcome

/-!
# Views — which trees of nodes stand for the clauses of a draft

A tree is read as a clause exactly if the kinds of its nodes are the right ones, level by level.
Nothing is lost on the way, and where a tree cannot be read, the fault is that of the first node
that is not of its kind (`views_exact`).
-/

namespace Kusto.Draft

/-! ## Trees -/

namespace Node

/-- The node with the kind that it should have, if `kinds` begins with another one than its own. -/
def misplaced (kinds : List Kind) (n : Node) : List (Kind × Node) :=
  (kinds.head?.filter (· ≠ n.kind)).toList.map (·, n)

mutual

/-- The nodes that are not of the kind which `kinds` has for their level, depth first and from left
to right, each with the kind that it should have. -/
def offenders (kinds : List Kind) : Node → List (Kind × Node)
  | clause c children => misplaced kinds (clause c children) ++ offendersIn kinds.tail children
  | n => misplaced kinds n
termination_by structural n => n

def offendersIn (kinds : List Kind) : List Node → List (Kind × Node)
  | [] => []
  | n :: ns => offenders kinds n ++ offendersIn kinds ns
termination_by structural ns => ns

end

/-- A clause with the connective `c` whose children are all in `P`. -/
def IsClauseOf (c : Connective) (P : Node → Prop) (n : Node) : Prop :=
  ∃ children, n = clause c children ∧ ∀ m ∈ children, P m

end Node

/-- The clause has the connective `c`, and its items are all in `P`. -/
def Clause.IsProperOf {α : Type} (c : Connective) (P : α → Prop) (v : Clause α) : Prop :=
  v.connective = c ∧ ∀ x ∈ v.items, P x

section Offenders

open Node

variable {kinds : List Kind} {k : Kind} {n : Node}

@[simp] theorem misplaced_of_eq (h : n.kind = k) : misplaced (k :: kinds) n = [] := by
  simp [misplaced, h]

theorem misplaced_of_ne (h : n.kind ≠ k) : misplaced (k :: kinds) n = [(k, n)] := by
  simp [misplaced, Ne.symm h]

theorem offendersIn_eq_flatMap (kinds : List Kind) (ns : List Node) :
    offendersIn kinds ns = ns.flatMap (offenders kinds) := by
  induction ns with
  | nil => rfl
  | cons n ns ih => rw [offendersIn, ih, List.flatMap_cons]

theorem offenders_clause (kinds : List Kind) (c : Connective) (children : List Node) :
    offenders kinds (clause c children) =
      misplaced kinds (clause c children) ++ children.flatMap (offenders kinds.tail) := by
  rw [offenders, offendersIn_eq_flatMap]

/-- A node of another kind comes before everything below it. -/
theorem head_offenders_of_ne (h : n.kind ≠ k) :
    (offenders (k :: kinds) n).head? = some (k, n) := by
  cases n with
  | clause c children =>
    rw [offenders_clause, misplaced_of_ne h]
    rfl
  | property | operator | reduce | groupBy | parameter =>
    exact congrArg List.head? (misplaced_of_ne h)

mutual

/-- Without kinds to compare with no node is out of place. -/
theorem offenders_nil : ∀ n : Node, offenders [] n = []
  | clause _ children => offendersIn_nil children
  | property _ | operator _ _ | reduce _ _ _ | groupBy _ _ | parameter _ => rfl

theorem offendersIn_nil : ∀ ns : List Node, offendersIn [] ns = []
  | [] => rfl
  | n :: ns => by rw [offendersIn, offenders_nil n, offendersIn_nil ns, List.append_nil]

end

theorem offenders_single_of_eq (h : n.kind = k) : offenders [k] n = [] := by
  cases n with
  | clause c children =>
    rw [offenders, misplaced_of_eq h, List.tail_cons, offendersIn_nil, List.append_nil]
  | property | operator | reduce | groupBy | parameter => exact misplaced_of_eq h

end Offenders

/-! ## Exact views -/

/-- `view` reads the trees in `Formed`, whose kinds are `kinds` level by level, and no others;
`node` takes what was read back to its tree. -/
structure ExactView {α : Type} (view : Node → Except Fault α) (node : α → Node)
    (Proper : α → Prop) (Formed : Node → Prop) (kinds : List Kind) : Prop where
  accepts : ∀ n, (∃ v, view n = .ok v) ↔ Formed n
  /-- Nothing of the tree is lost. -/
  restores : ∀ n v, view n = .ok v → Proper v ∧ node v = n
  /-- The fault is that of the first node that is not of its kind. -/
  blames : ∀ n, fault? (view n) =
    (n.offenders kinds).head?.map fun (k, m) => .unexpected k m.kind
  /-- Whatever has the proper connectives is read back from its tree. -/
  reads : ∀ v, Proper v → view (node v) = .ok v

section Views

variable {α : Type} {view : Node → Except Fault α} {node : α → Node} {Proper : α → Prop}
  {Formed : Node → Prop} {kinds : List Kind} {k : Kind}

/-- A view of single nodes of one kind: each is the node of something, or refused. -/
theorem exactView_of_kind (hread : ∀ v, view (node v) = .ok v) (hkind : ∀ v, (node v).kind = k)
    (hcases : ∀ n, (∃ v, n = node v) ∨ n.kind ≠ k ∧ view n = .error (.unexpected k n.kind)) :
    ExactView view node (fun _ => True) (·.kind = k) [k] where
  accepts n := by
    rcases hcases n with ⟨v, rfl⟩ | ⟨hne, hview⟩
    · exact iff_of_true ⟨v, hread v⟩ (hkind v)
    · refine iff_of_false ?_ hne
      rintro ⟨v, hv⟩
      exact absurd (hview.symm.trans hv) (by simp)
  restores n v h := by
    rcases hcases n with ⟨w, rfl⟩ | ⟨-, hview⟩
    · exact ⟨trivial, congrArg node (Except.ok.inj (h.symm.trans (hread w)))⟩
    · exact absurd (hview.symm.trans h) (by simp)
  blames n := by
    rcases hcases n with ⟨v, rfl⟩ | ⟨hne, hview⟩
    · rw [hread v, offenders_single_of_eq (hkind v)]
      rfl
    · rw [hview, head_offenders_of_ne hne]
      rfl
  reads v _ := hread v

/-- The fault of a list is that of the first item that has one. -/
theorem fault_mapM (view : Node → Except Fault α) (ns : List Node) :
    fault? (ns.mapM view) = ns.findSome? fun n => fault? (view n) := by
  induction ns with
  | nil => rfl
  | cons n ns ih =>
    rw [List.mapM_cons, List.findSome?_cons, ← ih]
    cases view n with
    | error f => rfl
    | ok v => cases ns.mapM view <;> rfl

theorem fault_bind_pure {β : Type} (x : Except Fault α) (f : α → β) :
    fault? (do return f (← x)) = fault? x := by
  cases x <;> rfl

theorem toClause_clause (c : Connective) (view : Node → Except Fault α) (children : List Node) :
    Node.toClause c view (.clause c children) = do return ⟨c, ← children.mapM view⟩ := by
  rw [Node.toClause, if_pos rfl]

/-- A node is a clause with the connective `c`, or refused as none. -/
theorem toClause_cases (c : Connective) (view : Node → Except Fault α) (n : Node) :
    (∃ children, n = .clause c children) ∨ n.kind ≠ .clause c ∧
      Node.toClause c view n = .error (.unexpected (.clause c) n.kind) := by
  cases n with
  | clause d children =>
    by_cases h : d = c
    · subst h
      exact .inl ⟨children, rfl⟩
    · refine .inr ⟨fun heq => h (Kind.clause.inj heq), ?_⟩
      rw [Node.toClause, if_neg h]
      rfl
  | property | operator | reduce | groupBy | parameter => exact .inr ⟨by simp [Node.kind], rfl⟩

/-- A list is read exactly if each of its nodes is, and its results lead back to it. -/
theorem ExactView.mapM_eq_ok_iff (h : ExactView view node Proper Formed kinds) {ns : List Node}
    {vs : List α} : ns.mapM view = .ok vs ↔ (∀ v ∈ vs, Proper v) ∧ vs.map node = ns := by
  constructor
  · intro hvs
    induction ns generalizing vs with
    | nil =>
      obtain rfl := Except.ok.inj hvs
      simp
    | cons n ns ih =>
      rw [List.mapM_cons] at hvs
      obtain ⟨w, hw, hvs⟩ := exists_of_bind_ok hvs
      obtain ⟨ws, hws, hvs⟩ := exists_of_bind_ok hvs
      obtain rfl := Except.ok.inj hvs
      obtain ⟨hproper, hnode⟩ := h.restores n w hw
      obtain ⟨hall, hmap⟩ := ih hws
      exact ⟨List.forall_mem_cons.mpr ⟨hproper, hall⟩, by rw [List.map_cons, hnode, hmap]⟩
  · rintro ⟨hproper, rfl⟩
    exact mapM_map_of_forall fun v hv => h.reads v (hproper v hv)

theorem ExactView.exists_mapM_iff (h : ExactView view node Proper Formed kinds) (ns : List Node) :
    (∃ vs, ns.mapM view = .ok vs) ↔ ∀ n ∈ ns, Formed n := by
  constructor
  · rintro ⟨vs, hvs⟩ n hn
    obtain ⟨hproper, rfl⟩ := h.mapM_eq_ok_iff.mp hvs
    obtain ⟨v, hv, rfl⟩ := List.mem_map.mp hn
    exact (h.accepts _).mp ⟨v, h.reads v (hproper v hv)⟩
  · intro hformed
    induction ns with
    | nil => exact ⟨[], rfl⟩
    | cons n ns ih =>
      obtain ⟨hn, hns⟩ := List.forall_mem_cons.mp hformed
      obtain ⟨v, hv⟩ := (h.accepts n).mpr hn
      obtain ⟨vs, hvs⟩ := ih hns
      refine ⟨v :: vs, ?_⟩
      rw [List.mapM_cons, hv, hvs]
      rfl

/-- **A view of the items gives one of the clauses of them.** -/
theorem ExactView.clause (h : ExactView view node Proper Formed kinds) (c : Connective) :
    ExactView (Node.toClause c view) (Clause.toNode node) (Clause.IsProperOf c Proper)
      (Node.IsClauseOf c Formed) (.clause c :: kinds) where
  accepts n := by
    constructor
    · rintro ⟨v, hv⟩
      rcases toClause_cases c view n with ⟨children, rfl⟩ | ⟨-, hview⟩
      · rw [toClause_clause] at hv
        obtain ⟨vs, hvs, -⟩ := exists_of_bind_ok hv
        exact ⟨children, rfl, (h.exists_mapM_iff children).mp ⟨vs, hvs⟩⟩
      · exact absurd (hview.symm.trans hv) (by simp)
    · rintro ⟨children, rfl, hformed⟩
      obtain ⟨vs, hvs⟩ := (h.exists_mapM_iff children).mpr hformed
      refine ⟨⟨c, vs⟩, ?_⟩
      rw [toClause_clause, hvs]
      rfl
  restores n v hv := by
    rcases toClause_cases c view n with ⟨children, rfl⟩ | ⟨-, hview⟩
    · rw [toClause_clause] at hv
      obtain ⟨vs, hvs, hv⟩ := exists_of_bind_ok hv
      obtain rfl := Except.ok.inj hv
      obtain ⟨hproper, hmap⟩ := h.mapM_eq_ok_iff.mp hvs
      exact ⟨⟨rfl, hproper⟩, congrArg (Node.clause c) hmap⟩
    · exact absurd (hview.symm.trans hv) (by simp)
  blames n := by
    rcases toClause_cases c view n with ⟨children, rfl⟩ | ⟨hne, hview⟩
    · -- the clause itself is in place, so the first offender is one below it
      have hkind : (Node.clause c children).kind = .clause c := rfl
      rw [toClause_clause, fault_bind_pure, fault_mapM, offenders_clause, misplaced_of_eq hkind,
        List.nil_append, List.tail_cons, List.head?_flatMap, List.map_findSome?]
      simp only [h.blames, Function.comp_def]
    · rw [hview, head_offenders_of_ne hne]
      rfl
  reads v hv := by
    obtain ⟨rfl, hproper⟩ := hv
    exact toClause_toNode fun x hx => h.reads x (hproper x hx)

/-! ## The views of a draft -/

theorem exactView_property :
    ExactView Node.toProperty Node.property (fun _ => True) (·.kind = .property) [.property] := by
  refine exactView_of_kind (fun _ => rfl) (fun _ => rfl) fun n => ?_
  cases n with
  | property p => exact .inl ⟨p, rfl⟩
  | operator | reduce | groupBy | parameter | clause => exact .inr ⟨by simp [Node.kind], rfl⟩

theorem exactView_parameter :
    ExactView Node.toParameter Node.parameter (fun _ => True) (·.kind = .parameter)
      [.parameter] := by
  refine exactView_of_kind (fun _ => rfl) (fun _ => rfl) fun n => ?_
  cases n with
  | parameter p => exact .inl ⟨p, rfl⟩
  | property | operator | reduce | groupBy | clause => exact .inr ⟨by simp [Node.kind], rfl⟩

theorem exactView_condition :
    ExactView Node.toCondition Condition.toNode (fun _ => True) (·.kind = .operator)
      [.operator] := by
  refine exactView_of_kind (fun _ => rfl) (fun _ => rfl) fun n => ?_
  cases n with
  | operator p o => exact .inl ⟨⟨p, o⟩, rfl⟩
  | property | reduce | groupBy | parameter | clause => exact .inr ⟨by simp [Node.kind], rfl⟩

theorem exactView_aggregation :
    ExactView Node.toAggregation Aggregation.toNode (fun _ => True) (·.kind = .reduce)
      [.reduce] := by
  refine exactView_of_kind (fun _ => rfl) (fun _ => rfl) fun n => ?_
  cases n with
  | reduce p f ps => exact .inl ⟨⟨p, f, ps⟩, rfl⟩
  | property | operator | groupBy | parameter | clause => exact .inr ⟨by simp [Node.kind], rfl⟩

theorem exactView_grouping :
    ExactView Node.toGrouping Grouping.toNode (fun _ => True) (·.kind = .groupBy)
      [.groupBy] := by
  refine exactView_of_kind (fun _ => rfl) (fun _ => rfl) fun n => ?_
  cases n with
  | groupBy p interval => exact .inl ⟨⟨p, interval⟩, rfl⟩
  | property | operator | reduce | parameter | clause => exact .inr ⟨by simp [Node.kind], rfl⟩

theorem exactView_alternatives :
    ExactView Node.toAlternatives (Clause.toNode Condition.toNode)
      (Clause.IsProperOf .any fun _ => True) (Node.IsClauseOf .any (·.kind = .operator))
      [.clause .any, .operator] :=
  exactView_condition.clause .any

/-- **The views of a draft are exact.**  A filter is a conjunction of alternatives of conditions;
aggregations and grouping keys are conjunctions.  The views of their parts are exact too. -/
theorem views_exact :
    ExactView Node.toFilter Draft.filterNode
      (Clause.IsProperOf .all (Clause.IsProperOf .any fun _ => True))
      (Node.IsClauseOf .all (Node.IsClauseOf .any (·.kind = .operator)))
      [.clause .all, .clause .any, .operator] ∧
    ExactView Node.toAggregations Draft.aggregationsNode (Clause.IsProperOf .all fun _ => True)
      (Node.IsClauseOf .all (·.kind = .reduce)) [.clause .all, .reduce] ∧
    ExactView Node.toGroupings Draft.groupingsNode (Clause.IsProperOf .all fun _ => True)
      (Node.IsClauseOf .all (·.kind = .groupBy)) [.clause .all, .groupBy] ∧
    ExactView Node.toAlternatives (Clause.toNode Condition.toNode)
      (Clause.IsProperOf .any fun _ => True) (Node.IsClauseOf .any (·.kind = .operator))
      [.clause .any, .operator] ∧
    ExactView Node.toCondition Condition.toNode (fun _ => True) (·.kind = .operator)
      [.operator] ∧
    ExactView Node.toAggregation Aggregation.toNode (fun _ => True) (·.kind = .reduce)
      [.reduce] ∧
    ExactView Node.toGrouping Grouping.toNode (fun _ => True) (·.kind = .groupBy) [.groupBy] ∧
    ExactView Node.toProperty Node.property (fun _ => True) (·.kind = .property) [.property] ∧
    ExactView Node.toParameter Node.parameter (fun _ => True) (·.kind = .parameter)
      [.parameter] := by
  have hfilter := exactView_alternatives.clause .all
  have haggregations := exactView_aggregation.clause .all
  have hgroupings := exactView_grouping.clause .all
  exact ⟨hfilter, haggregations, hgroupings, exactView_alternatives, exactView_condition,
    exactView_aggregation, exactView_grouping, exactView_property, exactView_parameter⟩

/-- The property below the alternatives comes before the aggregation beside them. -/
example (p f : Property) : Node.toFilter (.clause .all [.clause .any [.property p],
    .reduce p f []]) = .error (.unexpected .operator .property) := rfl

end Views

end Kusto.Draft
