import ArchiveIntake.Proofs.Http.Form
import ArchiveIntake.Proofs.Responses

/-! How the parameters of a plain request travel. Pairs that give each parameter at most once are read
in any order, and what a query and a form give is put together again. A list of variables in the body
takes the place of the parameter that says them. So one and the same plain request comes out. -/

namespace ArchiveIntake

namespace Parameter

theorem name_of_ofName? {name : String} {parameter : Parameter} (known : ofName? name = some parameter) :
    name = parameter.name := by
  simpa [eq_comm] using List.find?_some known

theorem ne_name_of_ofName? {name : String} (unknown : ofName? name = none) (parameter : Parameter) :
    name ≠ parameter.name := by
  rintro rfl
  cases (ofName?_name parameter).symm.trans unknown

theorem name_injective {parameter other : Parameter} (same : parameter.name = other.name) :
    parameter = other := by
  have known := ofName?_name parameter
  rw [same, ofName?_name] at known
  exact (Option.some.inj known).symm

end Parameter

namespace PlainRequest

def values (pairs : List (String × String)) (parameter : Parameter) : List String :=
  (pairs.filter fun pair => pair.1 = parameter.name).map (·.2)

/-- Pairs give every parameter that a request has once, with its value, and no other parameter. Their
order is free, and so is everything under other names. -/
def IsGivenBy (request : PlainRequest) (pairs : List (String × String)) : Prop :=
  ∀ parameter, values pairs parameter = (request.get parameter).toList

instance (request : PlainRequest) (pairs : List (String × String)) : Decidable (request.IsGivenBy pairs) :=
  decidable_of_iff (∀ parameter ∈ Parameter.all, values pairs parameter = (request.get parameter).toList)
    ⟨fun given parameter => given parameter parameter.mem_all, fun given parameter _ => given parameter⟩

variable {pairs first second : List (String × String)} {request other : PlainRequest}

theorem values_append (first second : List (String × String)) (parameter : Parameter) :
    values (first ++ second) parameter = values first parameter ++ values second parameter := by
  simp [values]

theorem ext_get (same : ∀ parameter, request.get parameter = other.get parameter) : request = other := by
  obtain ⟨_, _, _, _, _⟩ := request
  obtain ⟨_, _, _, _, _⟩ := other
  obtain rfl := same .pv
  obtain rfl := same .period
  obtain rfl := same .method
  obtain rfl := same .controllingPv
  obtain rfl := same .policy
  rfl

theorem get_merge (request other : PlainRequest) (parameter : Parameter) :
    (request.merge other).get parameter = (request.get parameter).or (other.get parameter) := by
  cases parameter <;> rfl

theorem takePair_of_free {pair : String × String}
    (free : ∀ parameter, ((request.get parameter).toList ++ values [pair] parameter).length ≤ 1) :
    ∃ next, request.takePair pair = .ok next ∧ ∀ parameter,
      (next.get parameter).toList = (request.get parameter).toList ++ values [pair] parameter := by
  unfold takePair
  cases known : Parameter.ofName? pair.1 with
  | none =>
    refine ⟨request, rfl, fun parameter => ?_⟩
    simp [values, Parameter.ne_name_of_ofName? known parameter]
  | some parameter =>
    have named := Parameter.name_of_ofName? known
    -- With a value held already, the one that the pair brings would be the second.
    have absent : request.get parameter = none := by
      have room := free parameter
      cases held : request.get parameter with
      | none => rfl
      | some value => simp [values, named, held] at room
    refine ⟨request.set parameter pair.2, by simp [absent], fun asked => ?_⟩
    rw [get_set]
    by_cases same : asked = parameter
    · subst same
      simp [values, named, absent]
    · have apart : parameter.name ≠ asked.name := fun equal => same (Parameter.name_injective equal).symm
      simp [values, named, same, apart]

/-- By induction on the pairs, from any request that has room for them. -/
theorem takePairs_of_free
    (free : ∀ parameter, ((request.get parameter).toList ++ values pairs parameter).length ≤ 1) :
    ∃ last, pairs.foldlM takePair request = .ok last ∧ ∀ parameter,
      (last.get parameter).toList = (request.get parameter).toList ++ values pairs parameter := by
  induction pairs generalizing request with
  | nil => exact ⟨request, rfl, fun _ => (List.append_nil _).symm⟩
  | cons pair rest ih =>
    have split (parameter : Parameter) :
        values (pair :: rest) parameter = values [pair] parameter ++ values rest parameter :=
      values_append [pair] rest parameter
    simp only [split, ← List.append_assoc] at free ⊢
    obtain ⟨next, taken, holds⟩ := takePair_of_free fun parameter =>
      Nat.le_trans (List.length_append ▸ Nat.le_add_right _ _) (free parameter)
    obtain ⟨last, others, final⟩ := ih fun parameter => by
      rw [holds]
      exact free parameter
    refine ⟨last, ?_, fun parameter => by rw [final, holds]⟩
    rw [List.foldlM_cons, taken]
    exact others

theorem ofPairs_of_atMostOnce (once : ∀ parameter, (values pairs parameter).length ≤ 1) :
    ∃ read, ofPairs pairs = .ok read ∧
      ∀ parameter, (read.get parameter).toList = values pairs parameter := by
  have empty (parameter : Parameter) : (({} : PlainRequest).get parameter).toList = [] := by
    cases parameter <;> rfl
  have free (parameter : Parameter) :
      ((({} : PlainRequest).get parameter).toList ++ values pairs parameter).length ≤ 1 := by
    rw [empty, List.nil_append]
    exact once parameter
  obtain ⟨read, taken, holds⟩ := takePairs_of_free free
  exact ⟨read, taken, fun parameter => by rw [holds, empty, List.nil_append]⟩

theorem IsGivenBy.atMostOnce (given : request.IsGivenBy pairs) (parameter : Parameter) :
    (values pairs parameter).length ≤ 1 := by
  rw [given]
  cases request.get parameter <;> simp

theorem or_of_toList_append {a b c : Option String} (parts : a.toList ++ b.toList = c.toList) :
    a.or b = c := by
  cases a <;> cases b <;> cases c <;> simp_all

theorem ofPairs_of_isGivenBy (given : request.IsGivenBy pairs) : ofPairs pairs = .ok request := by
  obtain ⟨read, taken, holds⟩ := ofPairs_of_atMostOnce given.atMostOnce
  have same : read = request := ext_get fun parameter => by
    have whole : (none : Option String).toList ++ (read.get parameter).toList =
        (request.get parameter).toList := (holds parameter).trans (given parameter)
    exact or_of_toList_append whole
  rw [taken, same]

/-- A request that is given in two parts is put together from what the parts are read as. -/
theorem merge_of_isGivenBy (given : request.IsGivenBy (first ++ second)) :
    ∃ query form, ofPairs first = .ok query ∧ ofPairs second = .ok form ∧ query.merge form = request := by
  have room (parameter : Parameter) :
      (values first parameter).length + (values second parameter).length ≤ 1 := by
    rw [← List.length_append, ← values_append]
    exact given.atMostOnce parameter
  have onceFirst (parameter : Parameter) : (values first parameter).length ≤ 1 :=
    Nat.le_trans (Nat.le_add_right _ _) (room parameter)
  have onceSecond (parameter : Parameter) : (values second parameter).length ≤ 1 :=
    Nat.le_trans (Nat.le_add_left _ _) (room parameter)
  obtain ⟨query, readFirst, inFirst⟩ := ofPairs_of_atMostOnce onceFirst
  obtain ⟨form, readSecond, inSecond⟩ := ofPairs_of_atMostOnce onceSecond
  refine ⟨query, form, readFirst, readSecond, ext_get fun parameter => ?_⟩
  have parts : (query.get parameter).toList ++ (form.get parameter).toList =
      (request.get parameter).toList := by
    rw [inFirst, inSecond, ← values_append, given]
  rw [get_merge, or_of_toList_append parts]

end PlainRequest

namespace Gateway
open Http Form

/-- The ways in which a plain request can travel. -/
inductive Carries (plain : PlainRequest) (request : Http.Request) : Prop
  /-- The query gives all parameters, and the body does not count. -/
  | query (pairs : List (String × String)) (written : SpellsForm pairs (Text.Utf8.encode request.query))
      (given : plain.IsGivenBy pairs) (untyped : request.hasContentType formType = false)
      (unstructured : request.hasContentType jsonType = false)
  /-- Each parameter is given by the query or by a form. -/
  | divided (inQuery inForm : List (String × String))
      (writtenQuery : SpellsForm inQuery (Text.Utf8.encode request.query))
      (writtenForm : SpellsForm inForm request.body) (given : plain.IsGivenBy (inQuery ++ inForm))
      (typed : request.hasContentType formType = true)
  /-- The body is the list of variables, and the query gives the other parameters. -/
  | listed (list : String) (pairs : List (String × String)) (named : plain.pv = some list)
      (sent : request.body = Text.Utf8.encode list.toList)
      (written : SpellsForm pairs (Text.Utf8.encode request.query))
      (given : { plain with pv := none }.IsGivenBy pairs)
      (untyped : request.hasContentType formType = false)
      (unstructured : request.hasContentType jsonType = false)

/-- A request of acceptable size that posts a plain request to be archived. -/
structure Posts (plain : PlainRequest) (request : Http.Request) : Prop where
  path : request.path = Route.path .archive
  method : request.method = "POST"
  small : request.body.length ≤ maxBodySize
  carries : Carries plain request

variable {plain : PlainRequest} {request : Http.Request} {pairs : List (String × String)}
  {written : List UInt8} {list : String}

theorem ofForm_of_spells (spells : SpellsForm pairs written) :
    PlainRequest.ofForm written = PlainRequest.ofPairs pairs := by
  rw [PlainRequest.ofForm, spells.decode_eq]

theorem withBody_of_named (named : plain.pv = some list) (body : List UInt8) :
    withBody plain body = plain := by
  simp [withBody, named]

theorem withBody_of_list (named : plain.pv = some list) (nonEmpty : list ≠ "") :
    withBody { plain with pv := none } (Text.Utf8.encode list.toList) = plain := by
  have sent : (Text.Utf8.encode list.toList).isEmpty = false :=
    List.isEmpty_eq_false_iff.mpr (Text.Utf8.encode_ne_nil nonEmpty)
  simp [withBody, sent, Text.Utf8.lossy_encode, ← named]

/-- However a plain request travels, it is what is submitted in the end. -/
theorem Posts.submits (posts : Posts plain request) (named : plain.pv = some list) (nonEmpty : list ≠ "") :
    ∃ query, PlainRequest.ofForm (Text.Utf8.encode request.query) = .ok query ∧
      Submits query request (.plain plain) := by
  obtain ⟨path, method, small, carries⟩ := posts
  cases carries with
  | query pairs written given untyped unstructured =>
    refine ⟨plain, (ofForm_of_spells written).trans (PlainRequest.ofPairs_of_isGivenBy given), ?_⟩
    have submits : Submits plain request (.plain (withBody plain request.body)) :=
      .listed untyped unstructured small
    rwa [withBody_of_named named] at submits
  | divided inQuery inForm writtenQuery writtenForm given typed =>
    obtain ⟨query, form, readQuery, readForm, rfl⟩ := PlainRequest.merge_of_isGivenBy given
    refine ⟨query, (ofForm_of_spells writtenQuery).trans readQuery, .form form typed ?_⟩
    have sent : Gateway.form request = .ok request.body := by
      rw [Gateway.form, method, if_neg (by decide), body, if_pos small]
    unfold formRequest
    rw [sent]
    simp only [bind, Except.bind, ofForm_of_spells writtenForm, readForm]
    rfl
  | listed sentList pairs sameNamed sent written given untyped unstructured =>
    cases named.symm.trans sameNamed
    refine ⟨_, (ofForm_of_spells written).trans (PlainRequest.ofPairs_of_isGivenBy given), ?_⟩
    have submits : Submits { plain with pv := none } request
        (.plain (withBody { plain with pv := none } request.body)) :=
      .listed untyped unstructured small
    rwa [sent, withBody_of_list named nonEmpty] at submits

def answerTo : Except AdmissionError (List ArchiveOutcome) → Http.Response
  | .ok results => outcomes results
  | .error e => (Refusal.ofError e).response

theorem Posts.respond_run (posts : Posts plain request) (named : plain.pv = some list)
    (nonEmpty : list ≠ "") (surroundings : Surroundings) (config : AdmissionConfig) (world : World) :
    (respond config request).run surroundings world =
      (answerTo ((archivePlain config.defaultPeriod plain).run surroundings world).1,
        ((archivePlain config.defaultPeriod plain).run surroundings world).2) := by
  obtain ⟨query, read, submits⟩ := posts.submits named nonEmpty
  have attempt : (Attempt.ofExcept (Submitted.plain plain).specs >>= archiveBatch config.defaultPeriod) =
      archivePlain config.defaultPeriod plain := rfl
  rw [respond_archive config posts.path (.inr posts.method), archive_run read submits.submitted_eq, attempt]
  rcases (archivePlain config.defaultPeriod plain).run surroundings world with ⟨_ | results, after⟩ <;> rfl

/-- Whatever fails, posted requests that carry the same plain request get the same response and leave the
same world: what archiving the plain request comes to. It does not matter whether its parameters stand
in the query, in a form or partly in both, in which order, how they are escaped and what else is given,
or whether the variables are listed in the body. -/
theorem parameters_travel_alike (surroundings : Surroundings) (config : AdmissionConfig) (world : World)
    (plain : PlainRequest) (list : String) (first second : Http.Request)
    (named : plain.pv = some list) (nonEmpty : list ≠ "")
    (one : Posts plain first) (other : Posts plain second) :
    (respond config first).run surroundings world = (respond config second).run surroundings world ∧
      (respond config first).run surroundings world =
        (answerTo ((archivePlain config.defaultPeriod plain).run surroundings world).1,
          ((archivePlain config.defaultPeriod plain).run surroundings world).2) := by
  have answered := one.respond_run named nonEmpty surroundings config world
  exact ⟨answered.trans (other.respond_run named nonEmpty surroundings config world).symm, answered⟩

/-- Three ways for a list of two variables and a policy with an umlaut. The engine cannot be told of the
second variable. -/
theorem parameters_travel_alike_of_three_ways :
    let list := "A.HIHI,\n pva://B+1"
    let plain : PlainRequest := { pv := some list, controllingPv := some "", policy := some "ü" }
    let inQuery : Http.Request :=
      { method := "POST", headers := [], body := []
        target := "/mgmt/bpl/archivePV?pv=A.HIHI%2C%0A+pva%3A%2F%2FB%2B1&controllingPV=&policy=%C3%BC" }
    let divided : Http.Request :=
      { method := "POST", target := "/mgmt/bpl/archivePV?debug=yes&policy=%C3%BC"
        headers := [("content-type", formType)]
        body := encode [("controllingPV", ""), ("pv", list)] }
    let listed : Http.Request :=
      { method := "POST", target := "/mgmt/bpl/archivePV?policy=%C3%BC&controllingPV=", headers := []
        body := Text.Utf8.encode list.toList }
    let store : ConfigStore := .memory { MemoryStore.empty with standardFields := ["HIHI"] }
    let run (request : Http.Request) := (respond .default request).run
      (.withOutages ["start_workflow:pva://B+1"] fun _ => 0) (.fresh store .noting)
    (Posts plain inQuery ∧ Posts plain divided ∧ Posts plain listed) ∧
      run inQuery = run divided ∧ run inQuery = run listed ∧ (run inQuery).1.status = 200 := by
  intro list plain inQuery divided listed store run
  have nonEmpty : list ≠ "" := by decide
  have spelled (pairs : List (String × String)) {written : List UInt8} (same : encode pairs = written) :
      SpellsForm pairs written := same ▸ spellsForm_encode pairs
  have postsQuery : Posts plain inQuery := by
    refine ⟨by decide +kernel, rfl, by decide, ?_⟩
    refine .query [("pv", list), ("controllingPV", ""), ("policy", "ü")]
      (spelled _ (by decide +kernel)) (by decide +kernel) (by decide +kernel) (by decide +kernel)
  have postsDivided : Posts plain divided := by
    refine ⟨by decide +kernel, rfl, by decide +kernel, ?_⟩
    refine .divided [("debug", "yes"), ("policy", "ü")] [("controllingPV", ""), ("pv", list)]
      (spelled _ (by decide +kernel)) (spellsForm_encode _) (by decide +kernel) (by decide +kernel)
  have postsListed : Posts plain listed := by
    refine ⟨by decide +kernel, rfl, by decide +kernel, ?_⟩
    refine .listed list [("policy", "ü"), ("controllingPV", "")] rfl rfl
      (spelled _ (by decide +kernel)) (by decide +kernel) (by decide +kernel) (by decide +kernel)
  have likeDivided := parameters_travel_alike (.withOutages ["start_workflow:pva://B+1"] fun _ => 0)
    .default (.fresh store .noting) plain list _ _ rfl nonEmpty postsQuery postsDivided
  have likeListed := parameters_travel_alike (.withOutages ["start_workflow:pva://B+1"] fun _ => 0)
    .default (.fresh store .noting) plain list _ _ rfl nonEmpty postsQuery postsListed
  exact ⟨⟨postsQuery, postsDivided, postsListed⟩, likeDivided.1, likeListed.1, by decide +kernel⟩

end Gateway
end ArchiveIntake
