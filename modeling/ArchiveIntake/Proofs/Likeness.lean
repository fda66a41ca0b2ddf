import ArchiveIntake.Proofs.Lookup
import ArchiveIntake.Proofs.Mirror

/-! Programs over a store in memory beside the same programs over a database. The replies to
their requests differ at most in the times of records and in the order of the standard fields,
and so do the records they write, so both end alike in worlds that still mirror each other. -/

namespace ArchiveIntake

inductive World.Mirrored (same : Time → Time → Prop) : World → World → Prop
  | intro (store other : ConfigStore) (queue : Table PendingRecord) (engine : Engine) (readings : Nat)
      (stores : store.Mirrored same other) :
      World.Mirrored same ⟨store, queue, engine, readings⟩ ⟨other, queue, engine, readings⟩

/-- What a relation between times has to allow for: a time that the clock says, the loss of
what a database does not keep of a time, and outages that see the record that is written. -/
structure TimeAgreement (same : Time → Time → Prop) (surroundings : Surroundings) : Prop where
  clock : ∀ reading, same (surroundings.clock reading) (surroundings.clock reading)
  stored : ∀ time other, same time other → same time (DatabaseStore.storedTime other)
  outage : ∀ pv record other, AlikeRecord same record other →
    surroundings.outage (.updateActiveRecord pv record) =
      surroundings.outage (.updateActiveRecord pv other)

namespace Request

def isWrite : Request → Bool
  | .updateActiveRecord _ _ => true
  | _ => false

/-- Replies that mirrored worlds give to the same request. -/
def AlikeReply (same : Time → Time → Prop) : (request : Request) → request.Reply → request.Reply → Prop
  | .activeRecord pv, reply, other => AlikeOutcome (AlikeFound same pv) reply other
  | .standardFields, reply, other =>
    AlikeOutcome (fun fields listed => NameSet.ofList fields = NameSet.ofList listed) reply other
  | .readClock, now, later => same now later
  | _, reply, other => reply = other

theorem alikeReply_refusal {same : Time → Time → Prop} {request : Request} {failure : Failure}
    {reply : request.Reply} (reads : request.isWrite = false)
    (refused : request.refusal failure = some reply) : request.AlikeReply same reply reply := by
  cases request with
  | activeRecord pv | standardFields =>
    cases refused
    exact .error failure
  | readClock => cases refused
  | updateActiveRecord pv record => cases reads
  | _ => exact rfl

end Request

namespace World.Mirrored
variable {same : Time → Time → Prop} {surroundings : Surroundings} {world other : World}

theorem answer (mirrored : Mirrored same world other) (agreement : TimeAgreement same surroundings)
    {request : Request} (reads : request.isWrite = false) :
    request.AlikeReply same (world.answer surroundings.clock request).1
        (other.answer surroundings.clock request).1 ∧
      Mirrored same (world.answer surroundings.clock request).2
        (other.answer surroundings.clock request).2 := by
  have kept := mirrored
  obtain ⟨store, others, queue, engine, readings, stores⟩ := mirrored
  cases request with
  | activeRecord pv => exact ⟨stores.activeRecord pv, kept⟩
  | updateActiveRecord pv record => cases reads
  | addAlias name pv =>
    obtain ⟨answered, stores⟩ := stores.addAlias name pv
    exact ⟨answered, .intro _ _ _ _ _ stores⟩
  | property key => exact ⟨stores.property key, kept⟩
  | standardFields => exact ⟨stores.standardFields, kept⟩
  | activeCount => exact ⟨stores.activeCount, kept⟩
  | readClock => exact ⟨agreement.clock readings, .intro _ _ _ _ _ stores⟩
  | hasPending key | pendingRecord key | pendingNames | queueLength => exact ⟨rfl, kept⟩
  | takePending key => exact ⟨rfl, .intro _ _ _ _ _ stores⟩
  | startWorkflow pv => exact ⟨rfl, .intro _ _ _ _ _ stores⟩
  | updatePending key edits =>
    simp only [World.answer, World.updatePending]
    cases queue[key]? with
    | none => exact ⟨rfl, kept⟩
    | some record => exact ⟨rfl, .intro _ _ _ _ _ stores⟩
  | insertIfAbsent key record =>
    simp only [World.answer, World.insertIfAbsent]
    split
    · exact ⟨rfl, kept⟩
    · exact ⟨rfl, .intro _ _ _ _ _ stores⟩

theorem respond (mirrored : Mirrored same world other) (agreement : TimeAgreement same surroundings)
    {request : Request} (reads : request.isWrite = false) :
    request.AlikeReply same (world.respond surroundings request).1 (other.respond surroundings request).1 ∧
      Mirrored same (world.respond surroundings request).2 (other.respond surroundings request).2 := by
  unfold World.respond
  cases refused : (surroundings.outage request).bind fun failure => request.refusal failure with
  | none => exact mirrored.answer agreement reads
  | some reply =>
    obtain ⟨failure, -, refused⟩ := Option.bind_eq_some_iff.mp refused
    exact ⟨Request.alikeReply_refusal reads refused, mirrored⟩

theorem respond_write (mirrored : Mirrored same world other)
    (agreement : TimeAgreement same surroundings) {pv : String} {record likeness : ActiveRecord}
    (named : record.pvName = pv) (alike : AlikeRecord same record likeness) :
    (world.respond surroundings (.updateActiveRecord pv record)).1 =
        (other.respond surroundings (.updateActiveRecord pv likeness)).1 ∧
      Mirrored same (world.respond surroundings (.updateActiveRecord pv record)).2
        (other.respond surroundings (.updateActiveRecord pv likeness)).2 := by
  unfold World.respond
  rw [← agreement.outage pv record likeness alike]
  cases surroundings.outage (.updateActiveRecord pv record) with
  | some failure => exact ⟨rfl, mirrored⟩
  | none =>
    obtain ⟨store, others, queue, engine, readings, stores⟩ := mirrored
    have timed := agreement.stored _ _ alike.modificationTime
    obtain ⟨answered, stores⟩ := stores.updateActiveRecord alike named timed
    exact ⟨answered, .intro _ _ _ _ _ stores⟩

end World.Mirrored

/-- Two programs that ask the same when the replies are alike, write records that are alike,
and end with related values. -/
inductive Program.Alike {α β : Type} (same : Time → Time → Prop) (related : α → β → Prop) :
    Program α → Program β → Prop
  | done (value : α) (other : β) (alike : related value other) :
      Program.Alike same related (.done value) (.done other)
  | ask (request : Request) (next : request.Reply → Program α) (others : request.Reply → Program β)
      (reads : request.isWrite = false)
      (rest : ∀ reply other, request.AlikeReply same reply other →
        Program.Alike same related (next reply) (others other)) :
      Program.Alike same related (.ask request next) (.ask request others)
  | write (pv : String) (record likeness : ActiveRecord) (next : Except Failure Unit → Program α)
      (others : Except Failure Unit → Program β) (named : record.pvName = pv)
      (alike : AlikeRecord same record likeness)
      (rest : ∀ reply, Program.Alike same related (next reply) (others reply)) :
      Program.Alike same related (.ask (.updateActiveRecord pv record) next)
        (.ask (.updateActiveRecord pv likeness) others)

namespace Program.Alike
variable {same : Time → Time → Prop} {β γ δ : Type} {related : α → β → Prop} {onward : γ → δ → Prop}
  {program : Program α} {other : Program β}

/-- Programs that are alike end alike, in worlds that mirror each other. -/
theorem run (alike : Alike same related program other) {surroundings : Surroundings}
    (agreement : TimeAgreement same surroundings) {world likeness : World}
    (mirrored : world.Mirrored same likeness) :
    related (program.run surroundings world).1 (other.run surroundings likeness).1 ∧
      World.Mirrored same (program.run surroundings world).2 (other.run surroundings likeness).2 := by
  induction alike generalizing world likeness with
  | done value other alike => exact ⟨alike, mirrored⟩
  | ask request next others reads rest ih =>
    rw [run_ask, run_ask]
    obtain ⟨replied, mirrored⟩ := mirrored.respond agreement reads
    exact ih _ _ replied mirrored
  | write pv record likeness next others named alike rest ih =>
    rw [run_ask, run_ask]
    obtain ⟨replied, mirrored⟩ := mirrored.respond_write agreement named alike
    rw [← replied]
    exact ih _ mirrored

theorem bind {next : α → Program γ} {others : β → Program δ} (first : Alike same related program other)
    (rest : ∀ value likeness, related value likeness → Alike same onward (next value) (others likeness)) :
    Alike same onward (program.bind next) (other.bind others) := by
  induction first with
  | done value likeness alike => exact rest value likeness alike
  | ask request asking asked reads _ ih =>
    exact .ask request _ _ reads fun reply reply' replied => ih reply reply' replied
  | write pv record likeness _ _ named alike _ ih =>
    exact .write pv record likeness _ _ named alike fun reply => ih reply

theorem mono {weaker : α → β → Prop} (alike : Alike same related program other)
    (weaken : ∀ value likeness, related value likeness → weaker value likeness) :
    Alike same weaker program other := by
  induction alike with
  | done value likeness alike => exact .done value likeness (weaken value likeness alike)
  | ask request next others reads _ ih => exact .ask request next others reads ih
  | write pv record likeness next others named alike _ ih =>
    exact .write pv record likeness next others named alike ih

theorem request (same : Time → Time → Prop) (request : Request) (reads : request.isWrite = false) :
    Alike same (request.AlikeReply same) (.request request) (.request request) :=
  .ask request _ _ reads fun reply other replied => .done reply other replied

end Program.Alike

def Attempt.Alike {β : Type} (same : Time → Time → Prop) (related : α → β → Prop) (attempt : Attempt α)
    (other : Attempt β) : Prop :=
  Program.Alike same (AlikeOutcome related) (ExceptT.run attempt) (ExceptT.run other)

namespace Attempt.Alike
variable {same : Time → Time → Prop} {β γ δ : Type} {related : α → β → Prop} {onward : γ → δ → Prop}
  {attempt : Attempt α} {other : Attempt β}

theorem pure {value : α} {likeness : β} (alike : related value likeness) :
    Alike same related (Pure.pure value) (Pure.pure likeness) :=
  .done _ _ (.ok value likeness alike)

theorem bind {next : α → Attempt γ} {others : β → Attempt δ} (first : Alike same related attempt other)
    (rest : ∀ value likeness, related value likeness → Alike same onward (next value) (others likeness)) :
    Alike same onward (attempt >>= next) (other >>= others) := by
  refine Program.Alike.bind first ?_
  intro result likeness alike
  cases alike with
  | error e => exact .done _ _ (.error e)
  | ok value likeness alike => exact rest value likeness alike

theorem bind_eq {attempt other : Attempt α} {next : α → Attempt γ} {others : α → Attempt δ}
    (first : Alike same Eq attempt other) (rest : ∀ value, Alike same onward (next value) (others value)) :
    Alike same onward (attempt >>= next) (other >>= others) := by
  apply first.bind
  intro value likeness equal
  cases equal
  exact rest value

theorem ofExcept (result : Except AdmissionError α) :
    Alike same Eq (Attempt.ofExcept result) (Attempt.ofExcept result) :=
  .done _ _ (.refl result)

theorem lift {program : Program α} {other : Program β} (alike : Program.Alike same related program other) :
    Alike same related (ExceptT.lift program) (ExceptT.lift other) :=
  Program.Alike.bind alike fun value likeness alike => .done _ _ (.ok value likeness alike)

theorem await {wrap : Failure → AdmissionError} {program : Program (Except Failure α)}
    {other : Program (Except Failure β)} (alike : Program.Alike same (AlikeOutcome related) program other) :
    Alike same related (Attempt.await wrap program) (Attempt.await wrap other) := by
  refine Program.Alike.bind alike ?_
  intro reply likeness replied
  cases replied with
  | ok value likeness alike => exact .done _ _ (.ok value likeness alike)
  | error failure => exact .done _ _ (.error (wrap failure))

theorem await_eq {wrap : Failure → AdmissionError} {program other : Program (Except Failure α)}
    (alike : Program.Alike same Eq program other) :
    Alike same Eq (Attempt.await wrap program) (Attempt.await wrap other) := by
  apply await
  apply alike.mono
  intro reply likeness equal
  cases equal
  exact .refl reply

end Attempt.Alike

inductive AlikeAdmission (same : Time → Time → Prop) : Admission → Admission → Prop
  | active (record likeness : ActiveRecord) (alike : AlikeRecord same record likeness) :
      AlikeAdmission same (.alreadyActive record) (.alreadyActive likeness)
  | pending (record : PendingRecord) :
      AlikeAdmission same (.alreadyPending record) (.alreadyPending record)
  | unknown : AlikeAdmission same .notRegistered .notRegistered

/-! Every program of the service is alike to itself. -/

variable (same : Time → Time → Prop)

theorem loadCatalog_alike : Program.Alike same Eq loadCatalog loadCatalog := by
  refine .ask .standardFields _ _ rfl ?_
  intro reply other replied
  cases replied with
  | ok fields listed alike => exact .done _ _ alike
  | error failure => exact .done _ _ rfl

namespace Admission
variable (name : NormalizedName) (aliasName : Option String)

theorem lookup_alike (pv : String) :
    Attempt.Alike same (AlikeFound same pv)
      (Attempt.collaborate (Program.request (.activeRecord pv)))
      (Attempt.collaborate (Program.request (.activeRecord pv))) :=
  .await (.request same (.activeRecord pv) rfl)

theorem mergeField_alike {record likeness : ActiveRecord} (named : record.pvName = name.baseName)
    (alike : AlikeRecord same record likeness) :
    Attempt.Alike same (AlikeRecord same) (mergeField name record) (mergeField name likeness) := by
  unfold mergeField
  cases name.standardField with
  | none => exact .pure alike
  | some field =>
    have archived : likeness.isFieldArchived field = record.isFieldArchived field := by
      simp only [ActiveRecord.isFieldArchived, alike.archivedFields]
    simp only [archived]
    by_cases known : record.isFieldArchived field = true
    · simp only [known, if_true]
      exact .pure alike
    · simp only [known]
      refine .bind (.lift (.request same .readClock rfl)) ?_
      intro now later timed
      have merged := alike.withField field timed
      refine .bind_eq (.await_eq ?_) fun _ => .pure merged
      exact .write name.baseName _ _ _ _ named merged fun reply => .done reply reply rfl

theorem mergeAlias_alike {record likeness : ActiveRecord} (alike : AlikeRecord same record likeness) :
    Attempt.Alike same (AlikeRecord same) (mergeAlias name aliasName record)
      (mergeAlias name aliasName likeness) := by
  cases aliasName with
  | none => exact .pure alike
  | some added =>
    refine .bind_eq (.await_eq (.request same (.addAlias added name.baseName) rfl)) ?_
    intro _
    exact .pure (alike.withAlias added)

theorem check_alike : Attempt.Alike same (AlikeAdmission same) (check name aliasName) (check name aliasName) := by
  refine .bind (lookup_alike same name.baseName) ?_
  intro found other alike
  cases alike with
  | present record likeness named alike =>
    have merged : Attempt.Alike same (AlikeRecord same) (mergeActive name aliasName record)
        (mergeActive name aliasName likeness) :=
      .bind (mergeField_alike same name named alike) fun _ _ => mergeAlias_alike same name aliasName
    exact .bind merged fun record likeness alike => .pure (.active record likeness alike)
  | absent =>
    refine .bind_eq (.bind_eq (.await_eq (.request same (.updatePending _ _) rfl)) fun _ => .pure rfl) ?_
    intro merged
    cases merged with
    | some record => exact .pure (.pending record)
    | none => exact .pure .unknown

theorem find_alike : Attempt.Alike same (AlikeAdmission same) (find name) (find name) := by
  refine .bind (lookup_alike same name.baseName) ?_
  intro found other alike
  cases alike with
  | present record likeness _ alike => exact .pure (.active record likeness alike)
  | absent =>
    refine .bind_eq (.await_eq (.request same (.pendingRecord name.baseName) rfl)) ?_
    intro queued
    cases queued with
    | some record => exact .pure (.pending record)
    | none => exact .pure .unknown

end Admission

theorem submit_alike (name : NormalizedName) (policy : EffectivePolicy) (aliasName : Option String) :
    Attempt.Alike same Eq (submit name policy aliasName) (submit name policy aliasName) := by
  refine .bind_eq (.await_eq (.request same (.insertIfAbsent _ _) rfl)) ?_
  intro inserted
  cases inserted with
  | false => exact .pure rfl
  | true => exact .bind_eq (.await_eq (.request same (.startWorkflow _) rfl)) fun _ => .pure rfl

theorem resolvePolicy_alike (defaultPeriod : Single) (spec : ArchiveSpec) :
    Attempt.Alike same Eq (resolvePolicy defaultPeriod spec) (resolvePolicy defaultPeriod spec) := by
  refine .bind_eq (.ofExcept spec.override) ?_
  intro asked
  cases asked with
  | none => exact .pure rfl
  | some asked =>
    have read : Attempt.Alike same Eq minimumPeriod minimumPeriod :=
      .bind_eq (.lift (.request same (.property minimumPeriodProperty) rfl)) fun _ => .ofExcept _
    exact .bind_eq read fun _ => .pure rfl

theorem admitItem_alike (defaultPeriod : Single) (name : NormalizedName) (spec : ArchiveSpec) :
    Attempt.Alike same Eq (admitItem defaultPeriod name spec) (admitItem defaultPeriod name spec) := by
  refine .bind_eq (.ofExcept spec.requestedMethod) fun _ => ?_
  refine .bind_eq (.ofExcept spec.requestedPeriod) fun _ => ?_
  refine .bind (Admission.check_alike same name spec.aliasName) ?_
  intro found other alike
  cases alike with
  | active | pending => exact .pure rfl
  | unknown =>
    refine .bind_eq (resolvePolicy_alike same defaultPeriod spec) fun policy => ?_
    refine .bind_eq (submit_alike same name policy spec.aliasName) fun submission => ?_
    cases submission <;> exact .pure rfl

theorem archivePv_alike (defaultPeriod : Single) (catalog : Catalog) (spec : ArchiveSpec) :
    Attempt.Alike same Eq (archivePv defaultPeriod catalog spec) (archivePv defaultPeriod catalog spec) := by
  refine .bind_eq (.ofExcept (Name.normalize catalog spec.pv)) fun name => ?_
  refine Program.Alike.bind (admitItem_alike same defaultPeriod name spec) ?_
  intro result other alike
  cases alike with
  | ok status other equal =>
    cases equal
    exact .done _ _ (.refl _)
  | error e => exact .done _ _ (.refl _)

theorem archiveItems_alike (defaultPeriod : Single) (catalog : Catalog) (specs : List ArchiveSpec) :
    Attempt.Alike same Eq (archiveItems defaultPeriod catalog specs)
      (archiveItems defaultPeriod catalog specs) := by
  induction specs with
  | nil => exact .pure rfl
  | cons spec rest ih =>
    exact .bind_eq (archivePv_alike same defaultPeriod catalog spec) fun _ =>
      .bind_eq ih fun _ => .pure rfl

theorem archiveBatch_alike (defaultPeriod : Single) (specs : List ArchiveSpec) :
    Attempt.Alike same Eq (archiveBatch defaultPeriod specs) (archiveBatch defaultPeriod specs) :=
  .bind_eq (.lift (loadCatalog_alike same)) fun catalog =>
    archiveItems_alike same defaultPeriod catalog specs

theorem archivePlain_alike (defaultPeriod : Single) (request : PlainRequest) :
    Attempt.Alike same Eq (archivePlain defaultPeriod request) (archivePlain defaultPeriod request) :=
  .bind_eq (.ofExcept _) fun specs => archiveBatch_alike same defaultPeriod specs

theorem archiveStructured_alike (defaultPeriod : Single) (body : List UInt8) :
    Attempt.Alike same Eq (archiveStructured defaultPeriod body) (archiveStructured defaultPeriod body) :=
  .bind_eq (.ofExcept _) fun specs => archiveBatch_alike same defaultPeriod specs

theorem status_alike (raw : String) :
    Attempt.Alike same (AlikeAdmission same) (status raw) (status raw) :=
  .bind_eq (.lift (loadCatalog_alike same)) fun _ =>
    .bind_eq (.ofExcept _) fun name => Admission.find_alike same name

theorem registerAliases_alike (pv : String) (names : List String) :
    Program.Alike same Eq (registerAliases pv names) (registerAliases pv names) := by
  induction names with
  | nil => exact .done _ _ rfl
  | cons name rest ih =>
    refine .ask (.addAlias name pv) _ _ rfl ?_
    intro reply other equal
    cases (equal : reply = other)
    cases reply with
    | error failure => exact .done _ _ rfl
    | ok _ => exact ih

theorem promote_alike (key pv : String) : Program.Alike same Eq (promote key pv) (promote key pv) := by
  refine .ask (.takePending key) _ _ rfl ?_
  intro reply other equal
  cases (equal : reply = other)
  rcases reply with failure | _ | pending
  · exact .done _ _ rfl
  · exact .done _ _ rfl
  refine .ask .readClock _ _ rfl ?_
  intro now later timed
  refine .write pv _ _ _ _ rfl ⟨rfl, rfl, rfl, timed⟩ ?_
  intro written
  cases written with
  | error failure => exact .done _ _ rfl
  | ok _ =>
    refine (registerAliases_alike same pv pending.aliases).bind ?_
    intro registered other equal
    cases equal
    cases registered <;> exact .done _ _ rfl

theorem confirmStarted_alike (pv : String) :
    Attempt.Alike same Eq (confirmStarted pv) (confirmStarted pv) :=
  .await_eq (promote_alike same _ pv)

end ArchiveIntake
