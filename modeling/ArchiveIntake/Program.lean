import ArchiveIntake.World

/-! Programs of requests. A program either is done or asks a collaborator and goes
on with the answer. Run alone it is a function of the world; run beside others it
advances one request at a time. -/

namespace ArchiveIntake

inductive Program (α : Type) where
  | done (value : α)
  | ask (request : Request) (next : request.Reply → Program α)

namespace Program

def bind : Program α → (α → Program β) → Program β
  | .done value, next => next value
  | .ask request rest, next => .ask request fun reply => (rest reply).bind next

instance : Monad Program where
  pure := .done
  bind := .bind

def request (request : Request) : Program request.Reply := .ask request .done

/-- Runs a program to its end with nothing in between. -/
def run (surroundings : Surroundings) : Program α → World → α × World
  | .done value, world => (value, world)
  | .ask request next, world =>
    let (reply, world) := world.respond surroundings request
    (next reply).run surroundings world

@[simp] theorem pure_eq (value : α) : (pure value : Program α) = .done value := rfl

@[simp] theorem bind_eq (program : Program α) (next : α → Program β) :
    (program >>= next) = program.bind next := rfl

@[simp] theorem done_bind (value : α) (next : α → Program β) :
    (done value).bind next = next value := rfl

@[simp] theorem ask_bind (asked : Request) (rest : asked.Reply → Program α)
    (next : α → Program β) :
    (ask asked rest).bind next = ask asked fun reply => (rest reply).bind next := rfl

@[simp] theorem request_bind (asked : Request) (next : asked.Reply → Program α) :
    (request asked).bind next = ask asked next := rfl

theorem bind_done (program : Program α) : program.bind .done = program := by
  induction program with
  | done value => rfl
  | ask asked rest ih => simp only [bind, ih]

theorem bind_assoc (program : Program α) (first : α → Program β) (second : β → Program γ) :
    (program.bind first).bind second = program.bind fun value => (first value).bind second := by
  induction program with
  | done value => rfl
  | ask asked rest ih => simp only [bind, ih]

instance : LawfulMonad Program :=
  LawfulMonad.mk' Program bind_done (fun _ _ => rfl) bind_assoc

@[simp] theorem run_done (surroundings : Surroundings) (value : α) (world : World) :
    (done value).run surroundings world = (value, world) := rfl

theorem run_ask (surroundings : Surroundings) (asked : Request)
    (next : asked.Reply → Program α) (world : World) :
    (ask asked next).run surroundings world =
      (next (world.respond surroundings asked).1).run surroundings
        (world.respond surroundings asked).2 := rfl

/-- What is done after a program sees the world that the program leaves. -/
theorem run_bind (surroundings : Surroundings) (program : Program α) (next : α → Program β)
    (world : World) :
    (program.bind next).run surroundings world =
      (next (program.run surroundings world).1).run surroundings
        (program.run surroundings world).2 := by
  induction program generalizing world with
  | done value => rfl
  | ask asked rest ih => simp only [bind, run_ask, ih]

end Program

/-- A program that may end in an error of the request. -/
abbrev Attempt := ExceptT AdmissionError Program

namespace Attempt

def run (surroundings : Surroundings) (attempt : Attempt α) (world : World) :
    Except AdmissionError α × World :=
  Program.run surroundings (ExceptT.run attempt) world

/-- Goes on with the answer of a collaborator, or ends with its failure. -/
def await (wrap : Failure → AdmissionError) (program : Program (Except Failure α)) : Attempt α :=
  ExceptT.mk do
    match ← program with
    | .ok value => return .ok value
    | .error failure => return .error (wrap failure)

def collaborate (program : Program (Except Failure α)) : Attempt α := await .collaborator program

def ofExcept (result : Except AdmissionError α) : Attempt α := ExceptT.mk (.done result)

def readClock : Attempt Time := ExceptT.lift (Program.request .readClock)

end Attempt
end ArchiveIntake
