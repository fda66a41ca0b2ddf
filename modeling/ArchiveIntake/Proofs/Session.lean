import ArchiveIntake.Proofs.Faults

/-! Sessions: any operations of the service, one after another, with their answers. -/

namespace ArchiveIntake

/-- A call a client can make. -/
inductive Operation where
  | archivePlain (request : PlainRequest)
  | archiveStructured (body : List UInt8)
  | archiveBatch (specs : List ArchiveSpec)
  | archivePv (catalog : Catalog) (spec : ArchiveSpec)
  | submit (name : NormalizedName) (policy : EffectivePolicy) (aliasName : Option String)
  | check (name : NormalizedName) (aliasName : Option String)
  | status (raw : String)
  | confirmStarted (pv : String)
  | promote (key pv : String)

namespace Operation

abbrev Answer : Operation → Type
  | .archivePlain _ | .archiveStructured _ | .archiveBatch _ =>
    Except AdmissionError (List ArchiveOutcome)
  | .archivePv _ _ => Except AdmissionError ArchiveOutcome
  | .submit _ _ _ => Except AdmissionError Submission
  | .check _ _ | .status _ => Except AdmissionError Admission
  | .confirmStarted _ => Except AdmissionError Bool
  | .promote _ _ => Except Failure Bool

def program (defaultPeriod : Single) : (operation : Operation) → Program operation.Answer
  | .archivePlain request => ExceptT.run (ArchiveIntake.archivePlain defaultPeriod request)
  | .archiveStructured body => ExceptT.run (ArchiveIntake.archiveStructured defaultPeriod body)
  | .archiveBatch specs => ExceptT.run (ArchiveIntake.archiveBatch defaultPeriod specs)
  | .archivePv catalog spec => ExceptT.run (ArchiveIntake.archivePv defaultPeriod catalog spec)
  | .submit name policy aliasName => ExceptT.run (ArchiveIntake.submit name policy aliasName)
  | .check name aliasName => ExceptT.run (Admission.check name aliasName)
  | .status raw => ExceptT.run (ArchiveIntake.status raw)
  | .confirmStarted pv => ExceptT.run (ArchiveIntake.confirmStarted pv)
  | .promote key pv => ArchiveIntake.promote key pv

end Operation

/-- An operation with its answer. -/
structure Performed where
  operation : Operation
  answer : operation.Answer

/-- The operations in order. No answer ends a session. -/
def session (defaultPeriod : Single) : List Operation → Program (List Performed)
  | [] => .done []
  | operation :: rest =>
    (operation.program defaultPeriod).bind fun answer =>
      (session defaultPeriod rest).bind fun others => .done (⟨operation, answer⟩ :: others)

theorem session_append (defaultPeriod : Single) (first second : List Operation) :
    session defaultPeriod (first ++ second) =
      (session defaultPeriod first).bind fun performed =>
        (session defaultPeriod second).bind fun others => .done (performed ++ others) := by
  induction first with
  | nil => exact (Program.bind_done _).symm
  | cons operation rest ih =>
    simp only [List.cons_append, session, ih, Program.bind_assoc, Program.done_bind]

theorem session_faults_of_prefix {defaultPeriod : Single} {surroundings : Surroundings}
    {world : World} {first operations : List Operation} (moment : first <+: operations)
    (steady : (session defaultPeriod operations).faults surroundings world = []) :
    (session defaultPeriod first).faults surroundings world = [] := by
  obtain ⟨second, rfl⟩ := moment
  rw [session_append, Program.faults_bind] at steady
  exact (List.append_eq_nil_iff.mp steady).1

end ArchiveIntake
