import Scoring.Json.Printer
import Scoring.Proofs.Spec.Fields

/-!
# RoundTrip — reading back documents

A document that is written as a JSON value and read again is the same document, as long as its numbers are finite: what
is not a finite number has no JSON form. Each part lists its numbers (`numbers`), and each is read back on its own.
-/

namespace Scoring.Spec

open Raw

/-! ## 1. General regression -/

def CoefficientCell.numbers (c : CoefficientCell) : List Float :=
  c.beta :: c.df.toList

def GeneralRegression.numbers (m : GeneralRegression) : List Float :=
  m.coefficientCells.flatMap (·.numbers)

theorem Parameter.ofRaw?_toJson (p : Parameter) : ofRaw? p.toJson.raw = some p := by
  unfold ofRaw? toJson
  rw [record?_present]
  · simp
  · rfl
  · decide

theorem predictor?_predictorToJson (name : String) : predictor? (predictorToJson name).raw = some name := by
  unfold predictor? predictorToJson
  rw [record?_fields]
  · simp
  · rfl
  · decide

theorem PredictorCell.ofRaw?_toJson (c : PredictorCell) : ofRaw? c.toJson.raw = some c := by
  unfold ofRaw? toJson
  rw [record?_present]
  · simp
  · rfl
  · decide

theorem CoefficientCell.ofRaw?_toJson {c : CoefficientCell} (h : ∀ x ∈ c.numbers, x.isFinite = true) :
    ofRaw? c.toJson.raw = some c := by
  obtain ⟨hbeta, hdf⟩ := List.forall_mem_cons.mp h
  have hbeta := (float?_ofFloat hbeta).2
  have hdf := nullable_map (f := Json.ofFloat) fun x hx => float?_ofFloat (hdf x (Option.mem_toList.mpr hx))
  unfold ofRaw? toJson
  rw [record?_present]
  · simp [hbeta, hdf]
  · rfl
  · decide

theorem GeneralRegression.ofRaw?_toJson {m : GeneralRegression} (h : ∀ x ∈ m.numbers, x.isFinite = true) :
    ofRaw? m.toJson.raw = some m := by
  have hcells : list? CoefficientCell.ofRaw? (Json.ofList CoefficientCell.toJson m.coefficientCells).raw =
      some m.coefficientCells := by
    refine list?_ofList fun c hc => CoefficientCell.ofRaw?_toJson fun x hx => ?_
    exact h x (List.mem_flatMap_of_mem hc hx)
  unfold ofRaw? toJson
  rw [record?_fields]
  · simp [hcells, MiningSchema.ofRaw?_toJson, TransformationDictionary.ofRaw?_toJson,
      list?_ofList fun p _ => Parameter.ofRaw?_toJson p, list?_ofList fun n _ => predictor?_predictorToJson n,
      list?_ofList fun c _ => PredictorCell.ofRaw?_toJson c]
  · rfl
  · decide

/-! ## 2. Regression -/

def RegressionTable.numbers (t : RegressionTable) : List Float :=
  t.intercept :: (t.numericTerms.map (·.coefficient) ++ t.categoryTerms.map (·.coefficient))

def Regression.numbers (m : Regression) : List Float :=
  m.tables.flatMap (·.numbers)

theorem NumericTerm.ofRaw?_toJson {t : NumericTerm} (h : t.coefficient.isFinite = true) :
    ofRaw? t.toJson.raw = some t := by
  have hcoefficient := (float?_ofFloat h).2
  unfold ofRaw? toJson
  rw [record?_fields]
  · simp [hcoefficient]
  · rfl
  · decide

theorem CategoryTerm.ofRaw?_toJson {t : CategoryTerm} (h : t.coefficient.isFinite = true) :
    ofRaw? t.toJson.raw = some t := by
  have hcoefficient := (float?_ofFloat h).2
  unfold ofRaw? toJson
  rw [record?_fields]
  · simp [hcoefficient]
  · rfl
  · decide

theorem RegressionTable.ofRaw?_toJson {t : RegressionTable} (h : ∀ x ∈ t.numbers, x.isFinite = true) :
    ofRaw? t.toJson.raw = some t := by
  obtain ⟨hintercept, hterms⟩ := List.forall_mem_cons.mp h
  obtain ⟨hnumeric, hcategory⟩ := List.forall_mem_append.mp hterms
  have hintercept := (float?_ofFloat hintercept).2
  have hnumeric := list?_ofList fun u hu => NumericTerm.ofRaw?_toJson (hnumeric _ (List.mem_map_of_mem hu))
  have hcategory := list?_ofList fun u hu => CategoryTerm.ofRaw?_toJson (hcategory _ (List.mem_map_of_mem hu))
  unfold ofRaw? toJson
  rw [record?_fields]
  · simp [hintercept, hnumeric, hcategory]
  · rfl
  · decide

theorem Regression.ofRaw?_toJson {m : Regression} (h : ∀ x ∈ m.numbers, x.isFinite = true) :
    ofRaw? m.toJson.raw = some m := by
  have htables : list? RegressionTable.ofRaw? (Json.ofList RegressionTable.toJson m.tables).raw =
      some m.tables := by
    refine list?_ofList fun t ht => RegressionTable.ofRaw?_toJson fun x hx => ?_
    exact h x (List.mem_flatMap_of_mem ht hx)
  unfold ofRaw? toJson
  rw [record?_fields]
  · simp [htables, MiningSchema.ofRaw?_toJson, TransformationDictionary.ofRaw?_toJson]
  · rfl
  · decide

/-! ## 3. Predicates -/

/-- What an object writes for the fields of an alternative, whether it is taken for a text or a value. -/
theorem content?_fields (origin : Origin) (names : List String) (ms : List (String × Json))
    (hnames : ms.map Prod.fst = names) (hd : names.Nodup) :
    content? origin names (Json.object ms).raw = some (ms.map fun m => some m.2.raw) := by
  have hcontent : content? origin names (Json.object ms).raw = record? names (Json.object ms).raw := by
    cases origin <;> rfl
  rw [hcontent, record?_fields names ms hnames hd]

namespace Predicate

variable {origin : Origin} {members : List (String × Raw)}

theorem ofRaw?_simple {field operator value : Option Raw}
    (hb : (Raw.object members).content? origin ["field", "operator", "value"] = some [field, operator, value]) :
    ofRaw? origin (.object [("SimplePredicate", .object members)]) =
      (do some (.simple (← required string? field) (← required Keyword.ofRaw? operator)
        (← nullable string? value))) := by
  unfold ofRaw?
  simp only [word?, hb, Option.bind_eq_bind, Option.bind_some]

theorem ofRaw?_set {field operator values : Option Raw}
    (hb : (Raw.object members).content? origin ["field", "booleanOperator", "array"] =
      some [field, operator, values]) :
    ofRaw? origin (.object [("SimpleSetPredicate", .object members)]) =
      (do some (.set (← required string? field) (← required Keyword.ofRaw? operator)
        (← required (list? string?) values))) := by
  unfold ofRaw?
  simp only [word?, hb, Option.bind_eq_bind, Option.bind_some]

theorem ofRaw?_compound {operator : Option Raw} {items : List Raw}
    (hb : (Raw.object members).content? origin ["booleanOperator", "predicates"] =
      some [operator, some (.array items)]) :
    ofRaw? origin (.object [("CompoundPredicate", .object members)]) =
      (do some (.compound (← required Keyword.ofRaw? operator) (← readAll? origin items))) := by
  unfold ofRaw?
  simp only [word?]
  split
  · rename_i h
    rw [hb] at h
    cases h
    rfl
  · rename_i hother
    exact absurd hb (hother operator items)

mutual

/-- A predicate is read back with all that nests in it. -/
theorem ofRaw?_toJson (origin : Origin) (p : Predicate) : ofRaw? origin p.toJson.raw = some p := by
  cases p with
  | always | never =>
    unfold ofRaw?
    rfl
  | simple field operator value =>
    have hb := content?_fields origin ["field", "operator", "value"] [("field", .string field),
      ("operator", Keyword.toJson operator), ("value", .ofOption .string value)] rfl (by decide)
    exact (ofRaw?_simple hb).trans (by simp)
  | set field operator values =>
    have hb := content?_fields origin ["field", "booleanOperator", "array"] [("field", .string field),
      ("booleanOperator", Keyword.toJson operator), ("array", .ofList .string values)] rfl (by decide)
    exact (ofRaw?_set hb).trans (by simp)
  | compound operator parts =>
    have hb := content?_fields origin ["booleanOperator", "predicates"] [
      ("booleanOperator", Keyword.toJson operator), ("predicates", .array (allToJson parts))] rfl (by decide)
    rw [List.map_cons, List.map_singleton, Json.raw_array] at hb
    exact (ofRaw?_compound hb).trans (by simp [readAll?_allToJson origin parts])

theorem readAll?_allToJson (origin : Origin) (ps : List Predicate) :
    readAll? origin ((allToJson ps).map Json.raw) = some ps := by
  cases ps with
  | nil => rw [allToJson, List.map_nil, readAll?]
  | cons p rest =>
    rw [allToJson, List.map_cons, readAll?, ofRaw?_toJson origin p, readAll?_allToJson origin rest]
    rfl

end

end Predicate

/-! ## 4. Decision trees -/

def ScoreEntry.numbers (e : ScoreEntry) : List Float :=
  e.recordCount :: e.probability.toList

mutual

def Node.numbers : Node → List Float
  | .node _ _ recordCount _ children distribution =>
    recordCount.toList ++ distribution.flatMap (·.numbers) ++ Node.numbersOfAll children

def Node.numbersOfAll : List Node → List Float
  | [] => []
  | n :: rest => n.numbers ++ Node.numbersOfAll rest

end

def Tree.numbers (m : Tree) : List Float :=
  m.root.numbers

theorem ScoreEntry.ofRaw?_toJson {e : ScoreEntry} (h : ∀ x ∈ e.numbers, x.isFinite = true) :
    ofRaw? e.toJson.raw = some e := by
  obtain ⟨hcount, hprobability⟩ := List.forall_mem_cons.mp h
  have hcount := (float?_ofFloat hcount).2
  have hprobability := nullable_ofOption (f := Json.ofFloat) fun x hx =>
    float?_ofFloat (hprobability x (Option.mem_toList.mpr hx))
  unfold ofRaw? toJson
  rw [record?_fields]
  · simp [hcount, hprobability]
  · rfl
  · decide

namespace Node

theorem ofRaw?_node {origin : Origin} {r : Raw} {id score recordCount predicate distribution : Option Raw}
    {items : List Raw}
    (hr : r.record? ["id", "score", "recordCount", "predicate", "nodes", "scoreDistributions"] =
      some [id, score, recordCount, predicate, some (.array items), distribution]) :
    ofRaw? origin r =
      (do some (.node (← nullable string? id) (← nullable string? score) (← nullable float? recordCount)
        (← required (Predicate.ofRaw? origin) predicate) (← readAll? origin items)
        (← withDefault [] (list? ScoreEntry.ofRaw?) distribution))) := by
  unfold ofRaw?
  split
  · rename_i h
    rw [hr] at h
    cases h
  · rename_i h
    rw [hr] at h
    cases h
    rfl
  · rename_i hother
    exact absurd hr (hother _ _ _ _ _ _)

mutual

/-- A node is read back with the tree below it. -/
theorem ofRaw?_toJson (origin : Origin) {n : Node} (h : ∀ x ∈ n.numbers, x.isFinite = true) :
    ofRaw? origin n.toJson.raw = some n := by
  cases n with
  | node id score recordCount predicate children distribution =>
    rw [numbers] at h
    obtain ⟨hown, hchildren⟩ := List.forall_mem_append.mp h
    obtain ⟨hcount, hentries⟩ := List.forall_mem_append.mp hown
    have hcount := nullable_ofOption (f := Json.ofFloat) fun x hx =>
      float?_ofFloat (hcount x (Option.mem_toList.mpr hx))
    have hentries : list? ScoreEntry.ofRaw? (Json.ofList ScoreEntry.toJson distribution).raw =
        some distribution := by
      refine list?_ofList fun e he => ScoreEntry.ofRaw?_toJson fun x hx => ?_
      exact hentries x (List.mem_flatMap_of_mem he hx)
    have hr := record?_fields ["id", "score", "recordCount", "predicate", "nodes", "scoreDistributions"] [
      ("id", .ofOption .string id),
      ("score", .ofOption .string score),
      ("recordCount", .ofOption .ofFloat recordCount),
      ("predicate", predicate.toJson),
      ("nodes", .array (allToJson children)),
      ("scoreDistributions", .ofList ScoreEntry.toJson distribution)] rfl (by decide)
    simp only [List.map_cons, List.map_nil, Json.raw_array] at hr
    rw [toJson, ofRaw?_node hr, readAll?_allToJson origin hchildren]
    simp [hcount, hentries, Predicate.ofRaw?_toJson]

theorem readAll?_allToJson (origin : Origin) {ns : List Node}
    (h : ∀ x ∈ numbersOfAll ns, x.isFinite = true) :
    readAll? origin ((allToJson ns).map Json.raw) = some ns := by
  cases ns with
  | nil => rw [allToJson, List.map_nil, readAll?]
  | cons n rest =>
    rw [numbersOfAll] at h
    obtain ⟨hn, hrest⟩ := List.forall_mem_append.mp h
    rw [allToJson, List.map_cons, readAll?, ofRaw?_toJson origin hn, readAll?_allToJson origin hrest]
    rfl

end

end Node

theorem Tree.ofRaw?_toJson (origin : Origin) {m : Tree} (h : ∀ x ∈ m.numbers, x.isFinite = true) :
    ofRaw? origin m.toJson.raw = some m := by
  have hroot := Node.ofRaw?_toJson origin h
  unfold ofRaw? toJson
  rw [record?_fields]
  · simp [hroot, MiningSchema.ofRaw?_toJson, TransformationDictionary.ofRaw?_toJson]
  · rfl
  · decide

/-! ## 5. Naive Bayes -/

def PairCounts.numbers (c : PairCounts) : List Float :=
  c.counts.map (·.count)

def InputDistribution.numbers : InputDistribution → List Float
  | .gaussian mean variance => [mean, variance]
  | .poisson mean => [mean]
  | .uniform lower upper => [lower, upper]

def BayesInput.numbers (i : BayesInput) : List Float :=
  i.pairCounts.flatMap (·.numbers) ++ i.statistics.flatMap (·.distribution.numbers)

def NaiveBayes.numbers (m : NaiveBayes) : List Float :=
  m.threshold :: (m.inputs.flatMap (·.numbers) ++ m.output.counts.map (·.count))

theorem ClassCount.ofRaw?_toJson {c : ClassCount} (h : c.count.isFinite = true) :
    ofRaw? c.toJson.raw = some c := by
  have hcount := (float?_ofFloat h).2
  unfold ofRaw? toJson
  rw [record?_fields]
  · simp [hcount]
  · rfl
  · decide

theorem ClassCount.list?_ofList {cs : List ClassCount} (h : ∀ x ∈ cs.map (·.count), x.isFinite = true) :
    list? ofRaw? (Json.ofList toJson cs).raw = some cs :=
  Raw.list?_ofList fun _ hc => ofRaw?_toJson (h _ (List.mem_map_of_mem hc))

theorem PairCounts.ofRaw?_toJson {c : PairCounts} (h : ∀ x ∈ c.numbers, x.isFinite = true) :
    ofRaw? c.toJson.raw = some c := by
  have hcounts := ClassCount.list?_ofList h
  unfold ofRaw? toJson
  rw [record?_fields]
  · simp [hcounts]
  · rfl
  · decide

theorem variant?_object (name : String) (j : Json) :
    variant? (Json.object [(name, j)]).raw = some (name, j.raw) := rfl

theorem InputDistribution.ofRaw?_toJson (origin : Origin) {d : InputDistribution}
    (h : ∀ x ∈ d.numbers, x.isFinite = true) : ofRaw? origin d.toJson.raw = some d := by
  cases d with
  | gaussian mean variance =>
    have hmean := (float?_ofFloat (h mean (by simp [numbers]))).2
    have hvariance := (float?_ofFloat (h variance (by simp [numbers]))).2
    unfold ofRaw? toJson
    rw [variant?_object]
    simp only [Option.bind_eq_bind, Option.bind_some]
    rw [content?_fields]
    · simp [hmean, hvariance]
    · rfl
    · decide
  | poisson mean =>
    have hmean := (float?_ofFloat (h mean (by simp [numbers]))).2
    unfold ofRaw? toJson
    rw [variant?_object]
    simp only [Option.bind_eq_bind, Option.bind_some]
    rw [content?_fields]
    · simp [hmean]
    · rfl
    · decide
  | uniform lower upper =>
    have hlower := (float?_ofFloat (h lower (by simp [numbers]))).2
    have hupper := (float?_ofFloat (h upper (by simp [numbers]))).2
    unfold ofRaw? toJson
    rw [variant?_object]
    simp only [Option.bind_eq_bind, Option.bind_some]
    rw [content?_fields]
    · simp [hlower, hupper]
    · rfl
    · decide

theorem ClassDistribution.ofRaw?_toJson (origin : Origin) {d : ClassDistribution}
    (h : ∀ x ∈ d.distribution.numbers, x.isFinite = true) : ofRaw? origin d.toJson.raw = some d := by
  have hdistribution := InputDistribution.ofRaw?_toJson origin h
  unfold ofRaw? toJson
  rw [record?_fields]
  · simp [hdistribution]
  · rfl
  · decide

theorem BayesInput.ofRaw?_toJson (origin : Origin) {i : BayesInput}
    (h : ∀ x ∈ i.numbers, x.isFinite = true) : ofRaw? origin i.toJson.raw = some i := by
  obtain ⟨hpairs, hstatistics⟩ := List.forall_mem_append.mp h
  have hpairs : list? PairCounts.ofRaw? (Json.ofList PairCounts.toJson i.pairCounts).raw =
      some i.pairCounts := by
    refine list?_ofList fun c hc => PairCounts.ofRaw?_toJson fun x hx => ?_
    exact hpairs x (List.mem_flatMap_of_mem hc hx)
  have hstatistics : list? (ClassDistribution.ofRaw? origin)
      (Json.ofList ClassDistribution.toJson i.statistics).raw = some i.statistics := by
    refine list?_ofList fun d hd => ClassDistribution.ofRaw?_toJson origin fun x hx => ?_
    exact hstatistics x (List.mem_flatMap_of_mem hd hx)
  unfold ofRaw? toJson
  rw [record?_fields]
  · simp [hpairs, hstatistics]
  · rfl
  · decide

theorem BayesOutput.ofRaw?_toJson {o : BayesOutput} (h : ∀ x ∈ o.counts.map (·.count), x.isFinite = true) :
    ofRaw? o.toJson.raw = some o := by
  have hcounts := ClassCount.list?_ofList h
  unfold ofRaw? toJson
  rw [record?_fields]
  · simp [hcounts]
  · rfl
  · decide

theorem NaiveBayes.ofRaw?_toJson (origin : Origin) {m : NaiveBayes}
    (h : ∀ x ∈ m.numbers, x.isFinite = true) : ofRaw? origin m.toJson.raw = some m := by
  obtain ⟨hthreshold, hparts⟩ := List.forall_mem_cons.mp h
  obtain ⟨hinputs, houtput⟩ := List.forall_mem_append.mp hparts
  have hthreshold := (float?_ofFloat hthreshold).2
  have houtput := BayesOutput.ofRaw?_toJson houtput
  have hinputs : list? (BayesInput.ofRaw? origin) (Json.ofList BayesInput.toJson m.inputs).raw =
      some m.inputs := by
    refine list?_ofList fun i hi => BayesInput.ofRaw?_toJson origin fun x hx => ?_
    exact hinputs x (List.mem_flatMap_of_mem hi hx)
  unfold ofRaw? toJson
  rw [record?_fields]
  · simp [hthreshold, hinputs, houtput, MiningSchema.ofRaw?_toJson, TransformationDictionary.ofRaw?_toJson]
  · rfl
  · decide

/-! ## 6. Models and documents -/

def Model.numbers : Model → List Float
  | .generalRegression m => m.numbers
  | .regression m => m.numbers
  | .tree m => m.numbers
  | .naiveBayes m => m.numbers
  | .other _ _ => []

def Model.payload? : Model → Option Json
  | .other _ content => some content
  | _ => none

def Document.numbers (d : Document) : List Float :=
  d.models.flatMap (·.numbers)

def Document.payloads (d : Document) : List Json :=
  d.models.filterMap (·.payload?)

theorem Model.ofRaw?_toJson (origin : Origin) {m : Model} (h : ∀ x ∈ m.numbers, x.isFinite = true)
    (hp : ∀ j ∈ m.payload?, j.Ordered) : ofRaw? origin m.toJson.raw = some m := by
  cases m with
  | generalRegression m =>
    unfold ofRaw? toJson
    simp [variant?_object, GeneralRegression.ofRaw?_toJson h]
  | regression m =>
    unfold ofRaw? toJson
    simp [variant?_object, Regression.ofRaw?_toJson h]
  | tree m =>
    unfold ofRaw? toJson
    simp [variant?_object, Tree.ofRaw?_toJson origin h]
  | naiveBayes m =>
    unfold ofRaw? toJson
    simp [variant?_object, NaiveBayes.ofRaw?_toJson origin h]
  | other family content =>
    have hcontent := Json.json?_raw (hp content rfl)
    unfold ofRaw? toJson
    rw [variant?_object]
    -- no such family has the name of one that is described in full
    cases family <;> simp [Keyword.spelling, Keyword.ofSpelling?, Keyword.all, hcontent]

theorem Model.ordered_of_ofRaw? {origin : Origin} {r : Raw} {m : Model} (h : ofRaw? origin r = some m) :
    ∀ j ∈ m.payload?, j.Ordered := by
  intro j hj
  cases m with
  | generalRegression | regression | tree | naiveBayes => cases hj
  | other family content =>
    cases hj
    unfold ofRaw? at h
    simp only [Option.bind_eq_bind, Option.bind_eq_some_iff] at h
    obtain ⟨⟨name, body⟩, -, h⟩ := h
    split at h
    -- the readers of the other families do not give such a model
    · simp at h
    · simp at h
    · simp at h
    · simp at h
    · simp only [Option.bind_eq_some_iff, Option.some.injEq, Model.other.injEq] at h
      obtain ⟨_, -, _, hcontent, -, rfl⟩ := h
      exact ordered_of_json? hcontent

namespace Document

/-- The payloads of a document that was read are ordered, whatever it was read from. -/
theorem ordered_of_ofRaw? {origin : Origin} {r : Raw} {d : Document} (h : ofRaw? origin r = some d) :
    ∀ j ∈ d.payloads, j.Ordered := by
  unfold ofRaw? at h
  simp only [Option.bind_eq_bind, Option.bind_eq_some_iff] at h
  obtain ⟨parts, -, h⟩ := h
  split at h
  · simp only [Option.bind_eq_some_iff, Option.some.injEq] at h
    obtain ⟨_, -, _, -, _, -, models, hmodels, rfl⟩ := h
    intro j hj
    obtain ⟨m, hm, hj⟩ := List.mem_filterMap.mp hj
    obtain ⟨_, hread⟩ := exists_of_mem_list? hmodels hm
    exact Model.ordered_of_ofRaw? hread j hj
  · cases h

/-- The fields of a document, whose version may be left out. -/
theorem record?_toJson (d : Document) :
    d.toJson.raw.record? ["version", "dataDictionary", "transformationDictionary", "models"] =
      some [d.version.map fun v => .string v, some d.dictionary.toJson.raw, some d.transformations.toJson.raw,
        some (Json.ofList Model.toJson d.models).raw] := by
  obtain ⟨version, dictionary, transformations, models⟩ := d
  cases version with
  | some v => exact record?_fields _ _ rfl (by decide)
  | none => exact record?_object ["dataDictionary", "transformationDictionary", "models"] rfl (by decide) _

/-- A document that is written as a value is read back as it was, when its numbers are finite. The payloads of models
that are only carried along are values, so their objects list each name once and ascending, as they do in every document
that was read (`ordered_of_ofRaw?`). -/
theorem round_trip {d : Document} (hnumbers : ∀ x ∈ d.numbers, x.isFinite = true)
    (hpayloads : ∀ j ∈ d.payloads, j.Ordered) : ofJson? d.toJson = some d := by
  have hmodels : list? (Model.ofRaw? .value) (Json.ofList Model.toJson d.models).raw = some d.models := by
    refine list?_ofList fun m hm => Model.ofRaw?_toJson .value (fun x hx => ?_) fun j hj => ?_
    · exact hnumbers x (List.mem_flatMap_of_mem hm hx)
    · exact hpayloads j (List.mem_filterMap.mpr ⟨m, hm, hj⟩)
  unfold ofJson? ofRaw?
  rw [record?_toJson]
  simp [hmodels, DataDictionary.ofRaw?_toJson, TransformationDictionary.ofRaw?_toJson]

def mixedDocument : Document where
  version := some "4.2"
  dictionary := ⟨[.continuous "age" .double, .categorical "work" .string ["state", "private"],
    .categorical "y" .boolean []]⟩
  transformations := ⟨[.replacingMissing "there" "age" .continuous .double "0",
    ⟨"norm", .ordinal, .date, .unsupported⟩]⟩
  models := [
    .generalRegression {
      name := some "logistic"
      function := .classification
      type := .coxRegression
      distribution := some .binomial
      link := none
      schema := ⟨[.active "age", .target "y", (MiningField.active "work").withReplacement "state"]⟩
      transformations := ⟨[⟨"empty", .continuous, .float, .constant none⟩]⟩
      parameters := [⟨"p0", some "Intercept"⟩, ⟨"p1", none⟩]
      factors := ["work"]
      covariates := ["age"]
      predictorCells := [⟨some "state", "work", "p1", none⟩, ⟨none, "age", "p0", some "no"⟩]
      coefficientCells := [⟨some "no", "p0", -1.5, some 1.0⟩, ⟨none, "p1", 0.25, none⟩] },
    .regression {
      name := none
      function := .regression
      normalization := .none
      schema := ⟨[]⟩
      transformations := ⟨[]⟩
      tables := [⟨0.5, some "no", [⟨"age", -2, 3.0⟩], [⟨"work", "state", 1e-3⟩]⟩, ⟨0.0, none, [], []⟩] },
    .tree {
      name := none
      function := .clustering
      schema := ⟨[]⟩
      transformations := ⟨[]⟩
      strategy := .returnLastPrediction
      root := .node none (some "no") (some 10.0) .always [
        .node (some "1") none none
          (.compound .surrogate [.simple "age" .lessThan (some "30"), .compound .xor [], .never])
          [] [⟨"no", 7.0, some 0.7⟩, ⟨"yes", 3.0, none⟩],
        .node none none none (.set "work" .isNotIn ["state", ""]) [] []] [] },
    .naiveBayes {
      name := some ""
      function := .classification
      threshold := 0.001
      schema := ⟨[]⟩
      transformations := ⟨[]⟩
      inputs := [⟨"work", [⟨"state", [⟨"no", 3.0⟩]⟩], []⟩,
        ⟨"age", [], [⟨"no", .gaussian 40.0 9.0⟩, ⟨"yes", .poisson 2.0⟩, ⟨"maybe", .uniform 0.0 1.0⟩]⟩]
      output := ⟨"y", [⟨"no", 3.0⟩, ⟨"yes", 4.0⟩]⟩ },
    .other .clusteringModel (.object [
      ("a", .array [.int 1, .null, .float 2.5]),
      ("b", .object [("c", .bool true)])])]

/-- The text of a document with a model that is only carried along, whose content names one member twice. -/
def carriedText : String :=
  "\x7b\"dataDictionary\": \x7b\"dataFields\": []\x7d, \"models\": " ++
  "[\x7b\"ClusteringModel\": \x7b\"b\": [1.5], \"a\": null, \"b\": true\x7d\x7d]\x7d"

theorem round_trip_mixed : (∀ x ∈ mixedDocument.numbers, x.isFinite = true) ∧
    (∀ j ∈ mixedDocument.payloads, j.Ordered) ∧ ofJson? mixedDocument.toJson = some mixedDocument ∧
    ∃ d, ofString? carriedText = some d ∧ d.payloads.map (·.compact) = ["\x7b\"a\":null,\"b\":true\x7d"] ∧
      ofJson? d.toJson = some d := by
  have hnumbers : ∀ x ∈ mixedDocument.numbers, x.isFinite = true := by decide +kernel
  have hpayloads : ∀ j ∈ mixedDocument.payloads, j.Ordered := by
    intro j hj
    rw [List.mem_singleton.mp hj]
    have hnames : ["a", "b"].Pairwise (· < ·) := by decide
    rw [Json.Ordered]
    exact ⟨hnames, by simp [Json.Ordered, Json.OrderedItems, Json.OrderedMembers, Ascending]⟩
  have hcarried : (ofString? carriedText).map (fun d => (d.payloads.map (·.compact), d.numbers.length)) =
      some (["\x7b\"a\":null,\"b\":true\x7d"], 0) := by decide +kernel
  obtain ⟨d, hd, hcarried⟩ := Option.map_eq_some_iff.mp hcarried
  obtain ⟨hprinted, hnone⟩ := Prod.mk.inj hcarried
  have hfinite : ∀ x ∈ d.numbers, x.isFinite = true := by simp [List.length_eq_zero_iff.mp hnone]
  obtain ⟨r, -, hr⟩ := Option.bind_eq_some_iff.mp hd
  exact ⟨hnumbers, hpayloads, round_trip hnumbers hpayloads, d, hd, hprinted,
    round_trip hfinite (ordered_of_ofRaw? hr)⟩

end Document

end Scoring.Spec
