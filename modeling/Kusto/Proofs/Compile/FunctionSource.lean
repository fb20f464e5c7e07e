import Kusto.Proofs.Compile.Confined

/-!
# Function sources — which names keep to their place

The name of a function is written as it stands, and a name with a parenthesis is taken for a whole
call.  So a name can do what no other text of the user can: add a stage, or hide one.  A name
without a parenthesis keeps to its place if it is a bare identifier, and only then; a name with one
keeps to its place in every query if it has no bar outside of parentheses and its scan ends in code
outside of them, and only then.
-/

namespace Kusto.Compile

open Kql (Closed Inert Place Scanner Pipeline Stage aroundBars behindBars identifier isBare render)
open Kql.Scanner (run bars cuts)

/-- The scanner stands outside of parentheses. -/
def outer (s : Scanner) : Bool := s.parens ≤ 0

/-- The draft is compiled without an alias and its source is the function of that name. -/
structure CallsFunction (ctx : Context) (d : Draft) (name : String) : Prop where
  alias_eq : ctx.alias? = none
  source_eq : d.source = some ⟨name, .function⟩

/-- The query, cut at its bars outside of parentheses, has a piece for the source and one for each
stage; and the first is a call of the identifier, if the name brings no parenthesis. -/
structure OnePerStage (ctx : Context) (d : Draft) (name : String) : Prop where
  count : (cuts outer {} (compile ctx d).query.toList).length =
    1 + (compile ctx d).pipeline.stages.length
  first : '(' ∉ name.toList → ∃ blanks : List Char, (∀ c ∈ blanks, c = ' ') ∧
    (cuts outer {} (compile ctx d).query.toList).head? =
      some (identifier name ++ ['(', ')'] ++ blanks)

/-- No bar of the name stands outside of parentheses. -/
def NoOuterBar (name : String) : Prop := (bars {} name.toList).filter outer = []

/-- Behind the name a scan stands in code, outside of parentheses. -/
def EndsOuter (name : String) : Prop :=
  (run {} name.toList).inCode ∧ outer (run {} name.toList)

/-- The names that keep to their place in every query. -/
def IsSafeCall (name : String) : Prop :=
  if '(' ∈ name.toList then NoOuterBar name ∧ EndsOuter name else isBare name.toList

instance (name : String) : Decidable (NoOuterBar name) :=
  inferInstanceAs (Decidable (_ = _))

instance (name : String) : Decidable (EndsOuter name) :=
  inferInstanceAs (Decidable (_ ∧ _))

instance (name : String) : Decidable (IsSafeCall name) := by
  unfold IsSafeCall
  infer_instance

variable {ctx : Context} {d : Draft} {name : String}

/-! ## The text of the query -/

section Text

/-- The text of a call: the name, with parentheses unless it brings its own. -/
def callChars (name : String) : List Char :=
  if '(' ∈ name.toList then name.toList else name.toList ++ ['(', ')']

theorem render_functionSource (name : String) :
    render (functionSource none name).tokens = callChars name := by
  unfold functionSource callChars
  split <;> simp [Kql.Source.tokens, Kql.Source.databaseTokens, Kql.Expr.inParens, Kql.Mark.chars]

theorem toList_query (h : CallsFunction ctx d name) (hne : name ≠ "") :
    (compile ctx d).query.toList =
      callChars name ++ behindBars ((pipeline ctx d).stages.map (·.text.toList)) := by
  obtain ⟨ha, hd⟩ := h
  have hsource : (sourceOf ctx d).1 = functionSource none name := by
    simp [sourceOf, Draft.sourceName?, hd, hne, ha]
  show (pipeline ctx d).text.toList = _
  rw [Pipeline.toList_text, source_pipeline, hsource, render_functionSource]

/-- The number of pieces, from the bars of the call and of what follows it. -/
theorem length_pieces (h : CallsFunction ctx d name) (hne : name ≠ "") :
    (cuts outer {} (compile ctx d).query.toList).length =
      ((bars {} (callChars name)).filter outer).length +
        ((bars (run {} (callChars name))
          (behindBars ((pipeline ctx d).stages.map (·.text.toList)))).filter outer).length + 1 := by
  rw [toList_query h hne, Scanner.length_cuts, Scanner.bars_append, List.filter_append,
    List.length_append]

end Text

/-! ## Bare names -/

section Bare

theorem length_aroundBars (w : List Char) (ws : List (List Char)) :
    (aroundBars w ws).length = 1 + ws.length := by
  induction ws generalizing w with
  | nil => rfl
  | cons x ws ih =>
    rw [aroundBars, List.length_cons, ih, List.length_cons]
    omega

theorem head_aroundBars (w : List Char) (ws : List (List Char)) :
    ∃ blanks : List Char, (∀ c ∈ blanks, c = ' ') ∧
      (aroundBars w ws).head? = some (w ++ blanks) := by
  cases ws with
  | nil => exact ⟨[], by simp, by simp [aroundBars]⟩
  | cons x ws => exact ⟨[' '], by simp, rfl⟩

theorem onePerStage_of_isBare (h : CallsFunction ctx d name) (hne : name ≠ "")
    (hp : '(' ∉ name.toList) (hb : isBare name.toList) : OnePerStage ctx d name := by
  have hcall : callChars name = name.toList ++ ['(', ')'] := if_neg hp
  have hname : Closed name.toList := by
    have hid := Kql.closed_identifier name
    rwa [Kql.identifier_of_isBare hb] at hid
  -- a bare name has no bar in it, so the only cuts are between the stages
  have hclosed : Closed (name.toList ++ ['(', ')']) := hname.append Kql.closed_nil.parens
  have hcuts : cuts outer {} (compile ctx d).query.toList =
      aroundBars (name.toList ++ ['(', ')']) ((pipeline ctx d).stages.map (·.text.toList)) := by
    rw [toList_query h hne, hcall]
    exact Kql.cuts_behindBars rfl (hclosed 0 0).bars_eq (hclosed 0 0).run_eq
      (stagesClosed_pipeline ctx d).closed_text
  constructor
  · rw [hcuts, length_aroundBars, List.length_map]
    rfl
  · intro _
    rw [hcuts, Kql.identifier_of_isBare hb]
    exact head_aroundBars _ _

theorem not_mem_escape {q : Char} {cs : List Char} (hq : q ≠ '\\') (h : q ∉ cs) :
    q ∉ cs.flatMap Kql.escapeSingle := by
  intro hm
  obtain ⟨c, hc, hqc⟩ := List.mem_flatMap.mp hm
  have hne : q ≠ c := fun e => h (e ▸ hc)
  unfold Kql.escapeSingle at hqc
  split at hqc <;> simp [hq, hne] at hqc

theorem length_le_escape (cs : List Char) : cs.length ≤ (cs.flatMap Kql.escapeSingle).length := by
  induction cs with
  | nil => exact Nat.le_refl _
  | cons c cs ih =>
    have hc : 1 ≤ (Kql.escapeSingle c).length := by
      unfold Kql.escapeSingle
      split <;> simp
    rw [List.flatMap_cons, List.length_append, List.length_cons]
    omega

/-- A name in quotes has the first parenthesis of its call later than the name as it stands. -/
theorem not_prefix_of_not_isBare {v : List Char} (hp : '(' ∉ name.toList)
    (hb : ¬ isBare name.toList) : ¬ identifier name ++ ['('] <+: name.toList ++ '(' :: v := by
  intro hpre
  have hid := Kql.identifier_of_not_isBare hb
  have hlen : name.toList.length < (identifier name).length := by
    have hle := length_le_escape name.toList
    rw [hid]
    simp only [List.length_cons, List.length_append]
    omega
  have hnot : '(' ∉ identifier name := by
    have hesc := not_mem_escape (by decide : '(' ≠ '\\') hp
    rw [hid]
    simp [hesc]
  obtain ⟨u, hu⟩ := hpre
  -- where the call of the plain name has its parenthesis, the quoted name goes on
  have hget : (identifier name)[name.toList.length]? = some '(' := by
    have hleft : (identifier name ++ (['('] ++ u))[name.toList.length]? =
        (identifier name)[name.toList.length]? := List.getElem?_append_left hlen
    rw [← hleft, ← List.append_assoc, hu]
    simp
  exact hnot (List.mem_of_getElem? hget)

theorem isBare_of_onePerStage (h : CallsFunction ctx d name) (hne : name ≠ "")
    (hp : '(' ∉ name.toList) (hone : OnePerStage ctx d name) : isBare name.toList := by
  by_contra hb
  obtain ⟨blanks, -, hhead⟩ := hone.first hp
  obtain ⟨ps, hps⟩ := List.head?_eq_some_iff.mp hhead
  have hpre := Scanner.prefix_of_cuts hps
  have hcall : callChars name = name.toList ++ ['(', ')'] := if_neg hp
  have hopen : identifier name ++ ['('] <+: identifier name ++ ['(', ')'] ++ blanks :=
    ⟨')' :: blanks, by simp⟩
  have htext : (compile ctx d).query.toList =
      name.toList ++ '(' :: ')' :: behindBars ((pipeline ctx d).stages.map (·.text.toList)) := by
    rw [toList_query h hne, hcall, List.append_assoc]
    rfl
  rw [htext] at hpre
  exact not_prefix_of_not_isBare hp hb (hopen.trans hpre)

end Bare

/-! ## Names with parentheses -/

section Calls

/-- The bars of closed texts behind bars, met in code or behind a slash. -/
theorem outer_behindBars {s : Scanner} (hcode : s.inCode) (hout : outer s)
    {ws : List (List Char)} (h : ∀ w ∈ ws, Closed w) :
    ((bars s (behindBars ws)).filter outer).length = ws.length := by
  obtain ⟨l, p, b⟩ := s
  cases ws with
  | nil => rfl
  | cons w ws =>
    have hspace : bars ⟨l, p, b⟩ (behindBars (w :: ws)) =
        bars ⟨.code, p, b⟩ (behindBars (w :: ws)) := by
      have hl : l = .code ∨ l = .slash := by simpa [Scanner.inCode] using hcode
      rcases hl with rfl | rfl <;> rfl
    have hp : outer ⟨.code, p, b⟩ = true := hout
    rw [hspace, Kql.bars_behindBars h, List.filter_replicate_of_pos hp, List.length_replicate]

/-- A name that ends in code outside of parentheses shows a bar for each stage, besides its own. -/
theorem count_of_endsOuter (h : CallsFunction ctx d name) (hne : name ≠ "")
    (hp : '(' ∈ name.toList) (he : EndsOuter name) :
    (cuts outer {} (compile ctx d).query.toList).length =
      ((bars {} name.toList).filter outer).length + (pipeline ctx d).stages.length + 1 := by
  have hcall : callChars name = name.toList := if_pos hp
  have hbars := outer_behindBars he.1 he.2 (stagesClosed_pipeline ctx d).closed_text
  rw [length_pieces h hne, hcall, hbars, List.length_map]

theorem onePerStage_of_endsOuter (h : CallsFunction ctx d name) (hne : name ≠ "")
    (hp : '(' ∈ name.toList) (he : EndsOuter name) :
    OnePerStage ctx d name ↔ NoOuterBar name := by
  have hcount := count_of_endsOuter h hne hp he
  have hstages : (compile ctx d).pipeline.stages.length = (pipeline ctx d).stages.length := rfl
  constructor
  · intro hone
    have hlen := hone.count
    refine List.eq_nil_of_length_eq_zero ?_
    omega
  · intro hbar
    refine ⟨?_, fun hnot => absurd hp hnot⟩
    have hzero : ((bars {} name.toList).filter outer).length = 0 := by rw [hbar]; rfl
    omega

/-- The draft with that function for its source and nothing else. -/
def ofFunction (name : String) : Draft := { source := some ⟨name, .function⟩ }

/-- Nothing is set but a row limit of zero. -/
def limited : Context := { options := { limit := some 0 } }

theorem noOuterBar_of_onePerStage (hne : name ≠ "") (hp : '(' ∈ name.toList)
    (hone : OnePerStage {} (ofFunction name) name) : NoOuterBar name := by
  have hcall : callChars name = name.toList := if_pos hp
  have hlen := length_pieces (⟨rfl, rfl⟩ : CallsFunction {} (ofFunction name) name) hne
  rw [hone.count, hcall] at hlen
  refine List.eq_nil_of_length_eq_zero ?_
  have hzero : (compile {} (ofFunction name)).pipeline.stages.length = 0 := rfl
  omega

/-- Behind a text that does not end in code outside of parentheses a row limit shows no bar. -/
theorem outer_limit {s : Scanner} (hq : s.QuoteKnown) (hs : ¬ (s.inCode ∧ outer s)) :
    (bars s (behindBars ["take 0".toList])).filter outer = [] := by
  obtain ⟨l, p, b⟩ := s
  have htext : behindBars ["take 0".toList] = " | take 0".toList := rfl
  rw [htext]
  -- a literal or a comment swallows the bar, and in code it is within parentheses
  cases l with
  | code =>
    have hout : outer ⟨.code, p, b⟩ = false := by simpa [Scanner.inCode] using hs
    have hbars : bars ⟨.code, p, b⟩ " | take 0".toList = [⟨.code, p, b⟩] := rfl
    rw [hbars, List.filter_cons_of_neg (by rw [hout]; decide)]
    rfl
  | slash =>
    have hout : outer ⟨.code, p, b⟩ = false := by simpa [Scanner.inCode, outer] using hs
    have hbars : bars ⟨.slash, p, b⟩ " | take 0".toList = [⟨.code, p, b⟩] := rfl
    rw [hbars, List.filter_cons_of_neg (by rw [hout]; decide)]
    rfl
  | comment => rfl
  | star => rfl
  | literal q => rcases hq with rfl | rfl <;> rfl
  | escape q => rcases hq with rfl | rfl <;> rfl

theorem endsOuter_of_onePerStage (hne : name ≠ "") (hp : '(' ∈ name.toList)
    (hbar : NoOuterBar name) (hone : OnePerStage limited (ofFunction name) name) :
    EndsOuter name := by
  by_contra hend
  have hcall : callChars name = name.toList := if_pos hp
  have hlen := length_pieces (⟨rfl, rfl⟩ : CallsFunction limited (ofFunction name) name) hne
  have htext : (pipeline limited (ofFunction name)).stages.map (·.text.toList) =
      ["take 0".toList] := rfl
  have hone' : (compile limited (ofFunction name)).pipeline.stages.length = 1 := rfl
  have hnone := outer_limit (Scanner.QuoteKnown.run (s := {}) trivial name.toList) hend
  rw [hone.count, hcall, hbar, htext, hone', hnone] at hlen
  exact absurd hlen (by decide)

end Calls

/-- **The names that keep to their place.**  In every query whose source is the function of a name
there is one piece for the source and one for each stage, and the first is a call of the
identifier, if and only if the name is safe.  Without a parenthesis in the name no single query is
right unless the name is a bare identifier; with one, a name that ends in code outside of
parentheses is right in a query if and only if it has no bar there. -/
theorem onePerStage_iff_isSafeCall (name : String) (hne : name ≠ "") :
    ((∀ ctx d, CallsFunction ctx d name → OnePerStage ctx d name) ↔ IsSafeCall name) ∧
      (∀ ctx d, CallsFunction ctx d name → '(' ∉ name.toList →
        (OnePerStage ctx d name ↔ isBare name.toList)) ∧
      ∀ ctx d, CallsFunction ctx d name → '(' ∈ name.toList → EndsOuter name →
        (OnePerStage ctx d name ↔ NoOuterBar name) := by
  refine ⟨⟨fun h => ?_, fun hsafe ctx d h => ?_⟩, fun ctx d h hp => ?_, fun ctx d h hp he => ?_⟩
  · -- a query without stages shows the bars of the name, and one with a limit how the name ends
    have hempty := h {} (ofFunction name) ⟨rfl, rfl⟩
    unfold IsSafeCall
    split
    · rename_i hp
      have hbar := noOuterBar_of_onePerStage hne hp hempty
      exact ⟨hbar, endsOuter_of_onePerStage hne hp hbar (h limited (ofFunction name) ⟨rfl, rfl⟩)⟩
    · rename_i hp
      exact isBare_of_onePerStage ⟨rfl, rfl⟩ hne hp hempty
  · unfold IsSafeCall at hsafe
    by_cases hp : '(' ∈ name.toList
    · rw [if_pos hp] at hsafe
      exact (onePerStage_of_endsOuter h hne hp hsafe.2).mpr hsafe.1
    · rw [if_neg hp] at hsafe
      exact onePerStage_of_isBare h hne hp hsafe
  · exact ⟨isBare_of_onePerStage h hne hp, onePerStage_of_isBare h hne hp⟩
  · exact onePerStage_of_endsOuter h hne hp he

theorem isSafeCall_errors :
    "Errors(1h)" ≠ "" ∧ IsSafeCall "Errors(1h)" ∧
      ∀ ctx d, CallsFunction ctx d "Errors(1h)" → OnePerStage ctx d "Errors(1h)" :=
  ⟨by decide, by decide, (onePerStage_iff_isSafeCall _ (by decide)).1.mpr (by decide)⟩

/-- A name with a bar adds a stage of its own to a query without stages, and is not quoted. -/
theorem not_onePerStage_injected :
    CallsFunction {} (ofFunction "a | take 1") "a | take 1" ∧
      (compile {} (ofFunction "a | take 1")).query = "a | take 1()" ∧
      ¬ OnePerStage {} (ofFunction "a | take 1") "a | take 1" := by
  refine ⟨⟨rfl, rfl⟩, rfl, fun h => ?_⟩
  have hcount : 2 = 1 + 0 := h.count
  exact absurd hcount (by decide)

end Kusto.Compile
