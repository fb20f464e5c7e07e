import Kusto.Proofs.Compile.Closed

/-!
# Confined queries — no text of the user leaves its place

The stages of every compiled query are closed, and so is its source unless it is a function.  Such
a query is the source and the stages with bars between them, and nothing that the user typed acts
as a bar, opens a literal or a comment, or closes a bracket of its surroundings.
-/

open Kusto.Text (joinWith)

namespace Kusto.Kql

open Kusto.Kql.Expr

/-! ## Sources and stages -/

section Stages

theorem closed_databaseTokens (db : Option String) :
    Closed (render (Source.databaseTokens db)) := by
  cases db with
  | none => exact closed_nil
  | some db =>
    have hword : Closed "database".toList := (by decide : Inert "database".toList).closed
    have hdot : Closed ['.'] := (by decide : Inert ['.']).closed
    have harg : Closed (render [Token.text db]) := by simpa using closed_quoted db
    have hall := (hword.append (closed_inParens harg)).append hdot
    simpa [Source.databaseTokens, Mark.chars] using hall

theorem closed_table (db : Option String) (name : String) :
    Closed (render (Source.table db name).tokens) := by
  have hall := (closed_databaseTokens db).append (closed_identifier name)
  simpa [Source.tokens] using hall

theorem closed_missing : Closed (render Source.missing.tokens) :=
  (by decide : Inert (render Source.missing.tokens)).closed

theorem closed_listTokens {es : List Expr} (h : ∀ e ∈ es, e.IsClosed) :
    Closed (render (Stage.listTokens es)) := by
  have hspace : Closed [' '] := (by decide : Inert [' ']).closed
  have hcomma : Closed (render [.mark .comma]) := (by decide : Inert [',']).closed
  rw [Stage.listTokens, render_joinWith]
  refine closed_joinWith hcomma fun w hw => ?_
  rw [List.map_map, List.mem_map] at hw
  obtain ⟨e, he, rfl⟩ := hw
  have hall := hspace.append (h e he)
  simpa using hall

theorem closed_filter {e : Expr} (h : e.IsClosed) : Closed (render (Stage.filter e).tokens) := by
  have hword : Closed "where ".toList := (by decide : Inert "where ".toList).closed
  simpa [Stage.tokens, Keyword.word] using hword.append h

theorem closed_summarize {aggregates keys : List Expr} (ha : ∀ e ∈ aggregates, e.IsClosed)
    (hk : ∀ e ∈ keys, e.IsClosed) : Closed (render (Stage.summarize aggregates keys).tokens) := by
  have hword : Closed "summarize".toList := (by decide : Inert "summarize".toList).closed
  have hby : Closed " by".toList := (by decide : Inert " by".toList).closed
  have hkeys : Closed (render
      (if keys.isEmpty then [] else .space :: .keyword .groupBy :: Stage.listTokens keys)) := by
    split
    · exact closed_nil
    · simpa [Keyword.word] using hby.append (closed_listTokens hk)
  have hall := (hword.append (closed_listTokens ha)).append hkeys
  simpa [Stage.tokens, Keyword.word] using hall

theorem closed_take (rows : Nat) : Closed (render (Stage.take rows).tokens) := by
  have hword : Closed "take ".toList := (by decide : Inert "take ".toList).closed
  simpa [Stage.tokens, Keyword.word] using hword.append (inert_intText _).closed

end Stages

/-! ## Pipelines -/

namespace Pipeline

/-- The text of every stage is closed. -/
def StagesClosed (p : Pipeline) : Prop := ∀ s ∈ p.stages, Closed (render s.tokens)

variable {p : Pipeline}

theorem StagesClosed.push (hp : p.StagesClosed) {s : Stage} (hs : Closed (render s.tokens)) :
    (p.push s).StagesClosed := by
  intro t ht
  rcases List.mem_append.mp ht with h | h
  · exact hp t h
  · rwa [List.mem_singleton.mp h]

theorem StagesClosed.summarize (hp : p.StagesClosed) {aggregates keys : List Expr}
    (ha : ∀ e ∈ aggregates, e.IsClosed) (hk : ∀ e ∈ keys, e.IsClosed) :
    (p.summarize aggregates keys).StagesClosed := by
  unfold Pipeline.summarize
  split
  · exact hp
  · exact hp.push (closed_summarize ha hk)

theorem toList_text (p : Pipeline) :
    p.text.toList = render p.source.tokens ++ behindBars (p.stages.map (·.text.toList)) := by
  have hstage : ∀ s : Stage, s.text.toList = render s.tokens := fun s => String.toList_ofList
  rw [text, renderText, String.toList_ofList, tokens, render_append]
  congr 1
  rw [behindBars, List.flatMap_map, render, List.flatMap_assoc]
  refine List.flatMap_congr fun s _ => ?_
  show render (bar ++ s.tokens) = _
  rw [render_append, hstage]

theorem StagesClosed.closed_text (hp : p.StagesClosed) :
    ∀ w ∈ p.stages.map (·.text.toList), Closed w := by
  intro w hw
  obtain ⟨s, hs, rfl⟩ := List.mem_map.mp hw
  have htext : s.text.toList = render s.tokens := String.toList_ofList
  rw [htext]
  exact hp s hs

end Pipeline

end Kusto.Kql

namespace Kusto.Compile

open Kql (Closed Confined Expr Pipeline Stage render)

variable {ctx : Context} {d : Draft}

/-! ## The stages of a draft -/

section Stages

variable {p : Pipeline}

theorem isClosed_timeFilter {e : Expr} (h : timeFilter? ctx = some e) : e.IsClosed := by
  unfold timeFilter? at h
  split at h
  · obtain ⟨c, -, rfl⟩ := Option.map_eq_some_iff.mp h
    refine Expr.isClosed_call (by decide) fun e he => ?_
    rw [List.mem_singleton.mp he]
    exact Expr.isClosed_column c.name
  · exact absurd h (by simp)

theorem isClosed_filter {e : Expr} (h : filter? ctx d = some e) : e.IsClosed := by
  unfold filter? at h
  dsimp only at h
  split at h
  · exact absurd h (by simp)
  · obtain rfl := Option.some.inj h
    exact Expr.isClosed_combined _ (isClosed_pieces fun g q => isClosed_alternatives)

theorem stagesClosed_addFilter (hp : p.StagesClosed) {f : Option Expr}
    (hf : ∀ e, f = some e → e.IsClosed) : (addFilter p f).StagesClosed := by
  cases f with
  | none => exact hp
  | some e => exact hp.push (Kql.closed_filter (hf e rfl))

theorem stagesClosed_addLimit (hp : p.StagesClosed) (n : Option Nat) :
    (addLimit p n).StagesClosed := by
  cases n with
  | none => exact hp
  | some n => exact hp.push (Kql.closed_take n)

/-- The stages of every draft are closed, whatever its source. -/
theorem stagesClosed_pipeline (ctx : Context) (d : Draft) : (pipeline ctx d).StagesClosed := by
  have hstart : ({ source := (sourceOf ctx d).1 } : Pipeline).StagesClosed := by
    intro s hs
    exact absurd hs List.not_mem_nil
  have htime : ∀ e, timeFilter? ctx = some e → e.IsClosed := fun e he => isClosed_timeFilter he
  have hfilter : ∀ e, filter? ctx d = some e → e.IsClosed := fun e he => isClosed_filter he
  have hfiltered := stagesClosed_addFilter (stagesClosed_addFilter hstart htime) hfilter
  refine stagesClosed_addLimit (hfiltered.summarize ?_ ?_) _
  · exact isClosed_pieces fun a q => isClosed_aggregation
  · exact isClosed_pieces fun g q => isClosed_grouping

end Stages

/-! ## The source of a draft -/

section Source

/-- The rows come from a function: the alias is one of a function or, without an alias, the source
has the type of functions. -/
def FromFunction (ctx : Context) (d : Draft) : Prop :=
  match ctx.alias? with
  | some a => a.kind = .function
  | none => d.source.map Property.type = some .function

instance (ctx : Context) (d : Draft) : Decidable (FromFunction ctx d) := by
  unfold FromFunction
  split <;> infer_instance

theorem closed_aliasSource {database : String} {a : Schema.Alias} (h : a.kind ≠ .function) :
    Closed (render (aliasSource database a).tokens) := by
  unfold aliasSource
  dsimp only
  split
  · rename_i hkind
    exact absurd hkind h
  · exact Kql.closed_table _ a.name
  · exact Kql.closed_table _ a.name

/-- The source of a draft is closed, unless it is a function. -/
theorem closed_source (h : ¬ FromFunction ctx d) :
    Closed (render (pipeline ctx d).source.tokens) := by
  rw [source_pipeline]
  unfold sourceOf
  unfold FromFunction at h
  cases hname : d.sourceName? with
  | none => exact Kql.closed_missing
  | some name =>
    -- the alias of a name goes before what the name says itself
    cases ha : ctx.alias? with
    | some a =>
      rw [ha] at h
      exact closed_aliasSource h
    | none =>
      rw [ha] at h
      dsimp only at h ⊢
      rw [if_neg h]
      exact Kql.closed_table none name

end Source

/-- **No text of the user leaves its place.**  The scan of a query whose source is no function ends
outside of literals and comments with all brackets closed and closes none that is not open; it
meets one bar in code for each stage, outside of brackets, and between these bars stand the source
and the stages in their order. -/
theorem compile_confined (ctx : Context) (d : Draft) (h : ¬ FromFunction ctx d) :
    let p := (compile ctx d).pipeline
    Confined (render p.source.tokens) (p.stages.map (·.text.toList))
      (compile ctx d).query.toList := by
  intro p
  show Confined _ _ p.text.toList
  rw [Pipeline.toList_text]
  exact Kql.confined_behindBars (closed_source h) (stagesClosed_pipeline ctx d).closed_text

/-- A draft whose texts are full of bars, quotes and ends of comments. -/
def hostile : Draft where
  source := some ⟨"a'] | b", .string⟩
  filter := .all [.any [
    ⟨⟨"c|", .string⟩, ⟨"==", some (.one (.text "\") | ")), none⟩⟩,
    ⟨⟨"d", .number⟩, ⟨"==", some (.one (.text "*/ | ")), none⟩⟩]]

theorem compile_confined_hostile :
    ¬ FromFunction {} hostile ∧
      Confined "['a\\'] | b']".toList
        [("where (['c|'] == \"\\\") | \"" ++
          " or /* invalid Number value for d: * / |  */)").toList]
        (compile {} hostile).query.toList :=
  ⟨by decide, compile_confined {} hostile (by decide)⟩

end Kusto.Compile
