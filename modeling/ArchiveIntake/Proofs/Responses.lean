import ArchiveIntake.Gateway
import ArchiveIntake.Http.Wire
import ArchiveIntake.Proofs.SharedParameters

/-! What the gateway answers a request to archive, whatever fails. Failures of collaborators are
outcomes of single items, so an error that reaches the gateway says either that the request cannot be
read, and then nothing has been done, or that a name in it is invalid. Both are the client's. -/

namespace ArchiveIntake

theorem parseStructured_eq_error {body : List UInt8} {e : AdmissionError}
    (unread : parseStructured body = .error e) : e.IsUnreadable := by
  unfold parseStructured at unread
  simp only at unread
  split at unread <;> cases unread
  exact .malformed _

/-! The errors differ in the first letter of their messages. -/

theorem head?_append {opening : String} {c : Char} (first : opening.toList.head? = some c)
    (rest : String) : (opening ++ rest).toList.head? = some c := by
  rw [String.toList_append, List.head?_append, first, Option.some_or]

theorem AdmissionError.head?_message_invalidName (baseName : String) :
    (invalidName baseName).message.toList.head? = some 'P' :=
  head?_append rfl baseName

theorem AdmissionError.IsUnreadable.head?_message {e : AdmissionError} (unreadable : e.IsUnreadable) :
    ∃ c, e.message.toList.head? = some c ∧ c ≠ 'P' := by
  cases unreadable with
  | malformed reason => exact ⟨'m', head?_append rfl reason.message, by decide⟩
  | unknownMethod text => exact ⟨'u', head?_append rfl text, by decide⟩
  | invalidPeriod text => exact ⟨'i', head?_append rfl text, by decide⟩

namespace Gateway
variable {query : PlainRequest} {request : Http.Request} {refusal : Refusal}

/-- Why a request to archive is refused before any name in it is looked at. -/
inductive Refusal.IsOfReading : Refusal → Prop
  | tooLarge : IsOfReading .tooLarge
  | repeatedInForm (method : String) (parameter : Parameter) :
      IsOfReading (.repeatedInForm method parameter)
  | ofError (e : AdmissionError) (unreadable : e.IsUnreadable) : IsOfReading (.ofError e)

theorem body_cases (request : Http.Request) :
    (request.body.length ≤ maxBodySize ∧ body request = .ok request.body) ∨
      ¬ request.body.length ≤ maxBodySize ∧ body request = .error .tooLarge := by
  by_cases small : request.body.length ≤ maxBodySize
  · exact .inl ⟨small, if_pos small⟩
  · exact .inr ⟨small, if_neg small⟩

theorem form_eq_error (refused : form request = .error refusal) : refusal.IsOfReading := by
  unfold form at refused
  split at refused
  · cases refused
  · rcases body_cases request with ⟨-, read⟩ | ⟨-, large⟩
    · cases refused.symm.trans read
    · cases refused.symm.trans large
      exact .tooLarge

theorem formRequest_eq_error (refused : formRequest request = .error refusal) :
    refusal.IsOfReading := by
  unfold formRequest at refused
  cases sent : form request with
  | error other =>
    rw [sent] at refused
    cases refused
    exact form_eq_error sent
  | ok bytes =>
    simp only [sent, bind, Except.bind] at refused
    split at refused <;> cases refused
    exact .repeatedInForm request.method _

inductive Submits (query : PlainRequest) (request : Http.Request) : Submitted → Prop
  /-- What the query leaves out is in a form. -/
  | form (form : PlainRequest) (typed : request.hasContentType formType = true)
      (read : formRequest request = .ok form) : Submits query request (.plain (query.merge form))
  /-- The body is JSON, and the query does not count. -/
  | structured (untyped : request.hasContentType formType = false)
      (typed : request.hasContentType jsonType = true) (small : request.body.length ≤ maxBodySize) :
      Submits query request (.structured request.body)
  /-- The body lists the variables unless the query does. -/
  | listed (untyped : request.hasContentType formType = false)
      (unstructured : request.hasContentType jsonType = false)
      (small : request.body.length ≤ maxBodySize) :
      Submits query request (.plain (withBody query request.body))

theorem submitted_cases (query : PlainRequest) (request : Http.Request) :
    (∃ submission, submitted query request = .ok submission ∧ Submits query request submission) ∨
      ∃ refusal, submitted query request = .error refusal ∧ refusal.IsOfReading := by
  unfold submitted
  cases formed : request.hasContentType formType with
  | true =>
    cases read : formRequest request with
    | error refusal => exact .inr ⟨refusal, rfl, formRequest_eq_error read⟩
    | ok form => exact .inl ⟨_, rfl, .form form formed read⟩
  | false =>
    rcases body_cases request with ⟨small, read⟩ | ⟨-, large⟩
    · rw [read]
      cases typed : request.hasContentType jsonType with
      | true => exact .inl ⟨_, rfl, .structured formed typed small⟩
      | false => exact .inl ⟨_, rfl, .listed formed typed small⟩
    · rw [large]
      exact .inr ⟨_, rfl, .tooLarge⟩

theorem Submits.submitted_eq {submission : Submitted} (submits : Submits query request submission) :
    submitted query request = .ok submission := by
  unfold submitted
  cases submits with
  | form form typed read =>
    rw [typed, read]
    rfl
  | structured untyped typed small =>
    rw [untyped, body, if_pos small, typed]
    rfl
  | listed untyped unstructured small =>
    rw [untyped, body, if_pos small, unstructured]
    rfl

theorem Refusal.ofError_of_isUnreadable {e : AdmissionError} (unreadable : e.IsUnreadable) :
    Refusal.ofError e = ⟨400, e.message⟩ := by
  cases unreadable <;> rfl

theorem Refusal.IsOfReading.isClients (reading : refusal.IsOfReading) :
    400 ≤ refusal.status ∧ refusal.status < 500 := by
  cases reading with
  | tooLarge => decide
  | repeatedInForm method parameter =>
    unfold Refusal.repeatedInForm
    split <;> simp
  | ofError e unreadable => simp [Refusal.ofError_of_isUnreadable unreadable]

theorem Refusal.head?_repeated (place : String) (parameter : Parameter) :
    (Refusal.repeated place parameter).toList.head? = some 'F' :=
  head?_append (head?_append (head?_append (head?_append rfl _) _) _) _

theorem Refusal.IsOfReading.head?_message (reading : refusal.IsOfReading) :
    ∃ c, refusal.message.toList.head? = some c ∧ c ≠ 'P' := by
  cases reading with
  | tooLarge =>
    refine ⟨'F', ?_, by decide⟩
    simp [Refusal.tooLarge]
  | repeatedInForm method parameter =>
    refine ⟨'F', ?_, by decide⟩
    unfold Refusal.repeatedInForm
    split <;> exact Refusal.head?_repeated _ parameter
  | ofError e unreadable =>
    rw [Refusal.ofError_of_isUnreadable unreadable]
    exact unreadable.head?_message

theorem Refusal.message_of_response {other : Refusal} (same : refusal.response = other.response) :
    refusal.message = other.message := by
  unfold Refusal.response at same
  injection same with status content
  injection content with object
  injection object with members
  injection members with member
  injection member with name value
  injection value

/-- The items that are asked for, in their order. -/
def Submitted.specs : Submitted → Except AdmissionError (List ArchiveSpec)
  | .structured body => parseStructured body
  | .plain request => request.specs

theorem Submitted.isUnreadable_of_specs {submission : Submitted} {e : AdmissionError}
    (given : submission.specs = .error e) : e.IsUnreadable := by
  cases submission with
  | structured body => exact parseStructured_eq_error given
  | plain request => exact request.isUnreadable_of_specs given

theorem admitAll_eq (defaultPeriod : Single) (submission : Submitted) :
    admitAll defaultPeriod submission =
      Attempt.ofExcept submission.specs >>= archiveBatch defaultPeriod := by
  cases submission <;> rfl

/-- A request that can be read asks for these items, in this order. -/
inductive Asks (request : Http.Request) (specs : List ArchiveSpec) : Prop
  | intro (query : PlainRequest) (submission : Submitted)
      (read : PlainRequest.ofForm (Text.Utf8.encode request.query) = .ok query)
      (submits : Submits query request submission) (items : submission.specs = .ok specs)

/-- How a request to archive goes, whatever fails. -/
inductive ArchiveCourse (surroundings : Surroundings) (defaultPeriod : Single) (request : Http.Request)
    (world : World) : Http.Response → World → Prop
  | repeatedInQuery (parameter : Parameter) (unread : ∀ specs, ¬ Asks request specs) :
      ArchiveCourse surroundings defaultPeriod request world
        ⟨400, .text (Refusal.repeated "query string" parameter)⟩ world
  | refused (refusal : Refusal) (reading : refusal.IsOfReading) (unread : ∀ specs, ¬ Asks request specs) :
      ArchiveCourse surroundings defaultPeriod request world refusal.response world
  | aborted (specs earlier : List ArchiveSpec) (spec : ArchiveSpec) (results : List ArchiveOutcome)
      (after : World) (asks : Asks request specs)
      (first : FirstInvalid (world.seenCatalog surroundings) specs earlier spec)
      (ran : (archiveBatch defaultPeriod earlier).run surroundings world = (.ok results, after)) :
      ArchiveCourse surroundings defaultPeriod request world
        (Refusal.ofError (.invalidName (spec.baseName (world.seenCatalog surroundings)))).response after
  | answered (specs : List ArchiveSpec) (results : List ArchiveOutcome) (after : World)
      (asks : Asks request specs)
      (ran : (archiveBatch defaultPeriod specs).run surroundings world = (.ok results, after))
      (names : results.map (·.pvName) = specs.map (·.baseName (world.seenCatalog surroundings))) :
      ArchiveCourse surroundings defaultPeriod request world (outcomes results) after

theorem archive_run {submission : Submitted}
    (read : PlainRequest.ofForm (Text.Utf8.encode request.query) = .ok query)
    (sent : submitted query request = .ok submission) (surroundings : Surroundings)
    (defaultPeriod : Single) (world : World) :
    (archive defaultPeriod request).run surroundings world =
      match (Attempt.ofExcept submission.specs >>= archiveBatch defaultPeriod).run surroundings world with
      | (.ok results, after) => (outcomes results, after)
      | (.error e, after) => ((Refusal.ofError e).response, after) := by
  unfold archive
  rw [read]
  simp only [sent, ← admitAll_eq]
  refine (Program.run_bind surroundings _ _ world).trans ?_
  unfold Attempt.run
  rcases Program.run surroundings (ExceptT.run (admitAll defaultPeriod submission)) world with
    ⟨_ | results, after⟩ <;> rfl

theorem Asks.exists_submission {specs : List ArchiveSpec} (asks : Asks request specs)
    (read : PlainRequest.ofForm (Text.Utf8.encode request.query) = .ok query) :
    ∃ submission, submitted query request = .ok submission ∧ submission.specs = .ok specs := by
  obtain ⟨_, submission, readAgain, submits, items⟩ := asks
  cases read.symm.trans readAgain
  exact ⟨submission, submits.submitted_eq, items⟩

theorem Asks.unique {specs others : List ArchiveSpec} (asks : Asks request specs)
    (again : Asks request others) : others = specs := by
  obtain ⟨query, submission, read, submits, items⟩ := asks
  obtain ⟨_, sent, itemsAgain⟩ := again.exists_submission read
  cases submits.submitted_eq.symm.trans sent
  cases items.symm.trans itemsAgain
  rfl

theorem archive_course (surroundings : Surroundings) (defaultPeriod : Single) (request : Http.Request)
    (world : World) :
    ArchiveCourse surroundings defaultPeriod request world
      ((archive defaultPeriod request).run surroundings world).1
      ((archive defaultPeriod request).run surroundings world).2 := by
  cases read : PlainRequest.ofForm (Text.Utf8.encode request.query) with
  | error parameter =>
    unfold archive
    rw [read]
    refine .repeatedInQuery parameter ?_
    rintro specs ⟨_, _, other, _, _⟩
    cases read.symm.trans other
  | ok query =>
    rcases submitted_cases query request with ⟨submission, sent, submits⟩ | ⟨refusal, refused, reading⟩
    · rw [archive_run read sent, Attempt.run_bind, Attempt.run_ofExcept]
      cases items : submission.specs with
      | error e =>
        refine .refused (.ofError e) (.ofError e (Submitted.isUnreadable_of_specs items)) ?_
        intro specs asks
        obtain ⟨_, sentAgain, itemsAgain⟩ := asks.exists_submission read
        cases sent.symm.trans sentAgain
        cases items.symm.trans itemsAgain
      | ok specs =>
        have asks : Asks request specs := ⟨query, submission, read, submits, items⟩
        simp only
        rcases archiveBatch_cases surroundings defaultPeriod world specs with
          ⟨results, after, ran, names⟩ | ⟨earlier, spec, results, after, first, ran, ended⟩
        · rw [ran]
          exact .answered specs results after asks ran names
        · rw [ended]
          exact .aborted specs earlier spec results after asks first ran
    · unfold archive
      rw [read]
      simp only [refused]
      refine .refused refusal reading ?_
      intro specs asks
      obtain ⟨_, sent, -⟩ := asks.exists_submission read
      cases refused.symm.trans sent

/-- What is answered to a request to archive. -/
structure ArchiveAnswer (surroundings : Surroundings) (defaultPeriod : Single) (request : Http.Request)
    (world : World) (response : Http.Response) (after : World) : Prop where
  status : response.status = 200 ∨ 400 ≤ response.status ∧ response.status < 500
  /-- A request is not refused if it can be read and all names in it are valid. -/
  served : ∀ specs, Asks request specs →
    (∀ spec ∈ specs, Name.isValid (spec.baseName (world.seenCatalog surroundings)) = true) →
    response.status = 200
  /-- An answer has one outcome for each item that is asked for, in order. -/
  answered : response.status = 200 → ∃ specs results, Asks request specs ∧
    response.content = .json (.array (results.map fun outcome =>
      .object [("pvName", .string outcome.pvName), ("status", .string outcome.status.text)])) ∧
    results.map (·.pvName) = specs.map (·.baseName (world.seenCatalog surroundings)) ∧
    (archiveBatch defaultPeriod specs).run surroundings world = (.ok results, after)
  /-- A refusal changes nothing unless it says that a name is invalid. -/
  untouched : response.status ≠ 200 →
    (∀ baseName, response ≠ (Refusal.ofError (.invalidName baseName)).response) → after = world
  /-- Then the items before the invalid one have been processed. -/
  aborted : ∀ baseName, response = (Refusal.ofError (.invalidName baseName)).response →
    ∃ specs earlier spec results, Asks request specs ∧
      FirstInvalid (world.seenCatalog surroundings) specs earlier spec ∧
      spec.baseName (world.seenCatalog surroundings) = baseName ∧
      (archiveBatch defaultPeriod earlier).run surroundings world = (.ok results, after)

theorem Refusal.IsOfReading.response_ne (reading : refusal.IsOfReading) (baseName : String) :
    refusal.response ≠ (Refusal.ofError (.invalidName baseName)).response := by
  intro same
  obtain ⟨c, first, other⟩ := reading.head?_message
  rw [Refusal.message_of_response same] at first
  cases first.symm.trans (AdmissionError.head?_message_invalidName baseName)
  exact other rfl

theorem ArchiveCourse.answer {surroundings : Surroundings} {defaultPeriod : Single} {world after : World}
    {response : Http.Response}
    (course : ArchiveCourse surroundings defaultPeriod request world response after) :
    ArchiveAnswer surroundings defaultPeriod request world response after := by
  have client {response : Http.Response} (badRequest : response.status = 400) :
      400 ≤ response.status ∧ response.status < 500 := by
    omega
  cases course with
  | repeatedInQuery parameter unread =>
    exact {
      status := .inr (client rfl)
      served := fun specs asks _ => absurd asks (unread specs)
      answered := nofun
      untouched := fun _ _ => rfl
      aborted := nofun }
  | refused refusal reading unread =>
    exact {
      status := .inr reading.isClients
      served := fun specs asks _ => absurd asks (unread specs)
      answered := fun (ok : refusal.status = 200) => absurd reading.isClients.1 (by omega)
      untouched := fun _ _ => rfl
      aborted := fun baseName same => absurd same (reading.response_ne baseName) }
  | aborted specs earlier spec results after asks first ran =>
    refine ⟨.inr (client rfl), ?_, nofun, fun _ other => absurd rfl (other _), ?_⟩
    · intro others again valid
      cases asks.unique again
      obtain ⟨later, rfl⟩ := first.split
      cases first.invalid.symm.trans (valid spec (List.mem_append_right _ List.mem_cons_self))
    · intro baseName same
      have named := (String.append_right_inj _).mp (Refusal.message_of_response same)
      exact ⟨specs, earlier, spec, results, asks, first, named, ran⟩
  | answered specs results after asks ran names =>
    exact {
      status := .inl rfl
      served := fun _ _ _ => rfl
      answered := fun _ => ⟨specs, results, asks, rfl, names, ran⟩
      untouched := fun failed => absurd rfl failed
      aborted := nofun }

theorem respond_archive (config : AdmissionConfig) (path : request.path = Route.path .archive)
    (method : request.method = "GET" ∨ request.method = "POST") :
    respond config request = archive config.defaultPeriod request := by
  have routed : Route.ofPath? request.path = some .archive := by
    rw [path]
    decide
  unfold respond
  rcases method with reads | posts
  · simp only [reads, routed]
    exact Program.bind_done _
  · simp only [posts, routed]
    exact Program.bind_done _

/-- Whatever fails, a request to archive is answered with one outcome for each variable, or the client
is told what is wrong with it, and nothing is wrong if it can be read and its names are valid. It is
refused without a trace unless a name is invalid; then the variables before that have been processed. -/
theorem failures_never_fail_archive_requests (surroundings : Surroundings) (config : AdmissionConfig)
    (world : World) (request : Http.Request) (path : request.path = Route.path .archive)
    (method : request.method = "GET" ∨ request.method = "POST") :
    ArchiveAnswer surroundings config.defaultPeriod request world
      ((respond config request).run surroundings world).1
      ((respond config request).run surroundings world).2 := by
  rw [respond_archive config path method]
  exact (archive_course surroundings config.defaultPeriod request world).answer

/-- The engine cannot be told of the first name. It takes the second one, and the third is waiting since the
first; or else the second name is invalid. -/
theorem failures_never_fail_archive_requests_up_to_invalid_name :
    let posted (body : String) : Http.Request := {
      method := "POST"
      target := "/mgmt/bpl/archivePV?samplingperiod=2"
      headers := [("Content-Type", "text/plain")]
      body := Text.Utf8.encode body.toList }
    let surroundings := Surroundings.withOutages ["start_workflow:A"] fun _ => 0
    let start : World := .fresh (.memoryOf .default) .noting
    let answer (body : String) := (respond .default (posted body)).run surroundings start
    let answered (body : String) := ArchiveAnswer surroundings AdmissionConfig.default.defaultPeriod
      (posted body) start (answer body).1 (answer body).2
    let served := answer "A.HIHI\nB\nA"
    let refused := answer "A.HIHI\nB C\nD"
    served.1.status = 200 ∧ Http.Wire.content served.1.content = ("application/json",
        "[\x7b\"pvName\":\"A\",\"status\":\"Exception occurred\"\x7d," ++
          "\x7b\"pvName\":\"B\",\"status\":\"Archive request submitted\"\x7d," ++
          "\x7b\"pvName\":\"A\",\"status\":\"Already submitted\"\x7d]") ∧
      answered "A.HIHI\nB\nA" ∧
      refused.1.status = 400 ∧ refused.2.queue.keys = ["A"] ∧ answered "A.HIHI\nB C\nD" := by
  intro posted surroundings start answer answered served refused
  have path (body : String) : (posted body).path = Route.path .archive :=
    show String.ofList (Http.Target.split "/mgmt/bpl/archivePV?samplingperiod=2").1 = _ by decide +kernel
  have law (body : String) : answered body :=
    failures_never_fail_archive_requests surroundings .default start (posted body) (path body) (.inr rfl)
  exact ⟨by decide +kernel, by decide +kernel, law _, by decide +kernel, by decide +kernel, law _⟩

end Gateway
end ArchiveIntake
