import ArchiveIntake.Name
import ArchiveIntake.Program

/-! Promotion: once the engine has started a request, it leaves the queue and
becomes an active record with its fields and aliases. -/

namespace ArchiveIntake

/-- Registers aliases one after another, up to the first failure. -/
def registerAliases (pv : String) : List String → Program (Except Failure Unit)
  | [] => .done (.ok ())
  | aliasName :: rest =>
    .ask (.addAlias aliasName pv) fun
      | .error failure => .done (.error failure)
      | .ok () => registerAliases pv rest

/-- Moves the request under a key to the configuration store. Says whether there was one. -/
def promote (key pv : String) : Program (Except Failure Bool) :=
  .ask (.takePending key) fun
    | .error failure => .done (.error failure)
    | .ok none => .done (.ok false)
    | .ok (some pending) =>
      .ask .readClock fun now =>
        let record := { ActiveRecord.new pv now with archivedFields := pending.requestedFields }
        .ask (.updateActiveRecord pv record) fun
          | .error failure => .done (.error failure)
          | .ok () => (registerAliases pv pending.aliases).bind fun
            | .error failure => .done (.error failure)
            | .ok () => .done (.ok true)

/-- The engine reports a start under the full name. -/
def confirmStarted (pv : String) : Attempt Bool := Attempt.collaborate (promote (Name.queueKey pv) pv)

end ArchiveIntake
