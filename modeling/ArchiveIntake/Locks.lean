import ArchiveIntake.Table

/-! Locks by key. Work on one key excludes other work on the same key while work
on different keys goes on side by side. The mutex of a key is made when it is first
asked for and its entry is taken away once nobody uses it, so the table holds
entries only for keys in use. A thread goes through five steps for each key, and
threads may interleave between any two of them. -/

namespace ArchiveIntake

inductive LockPhase where
  /-- Has a reference to the mutex and waits for it. -/
  | waiting
  /-- Owns the mutex. -/
  | inside
  /-- Has released the mutex and keeps the reference. -/
  | leaving
  /-- Has given the reference back and is about to look at the entry. -/
  | sweeping
deriving DecidableEq, Repr

/-- A key a thread works on, with the mutex it found there. -/
structure Hold where
  key : String
  mutex : Nat
  phase : LockPhase
deriving DecidableEq, Repr

namespace Hold

def isReference (hold : Hold) : Bool := hold.phase ≠ .sweeping

def owns (hold : Hold) : Bool := hold.phase = .inside

end Hold

/-- The entries by key, and what every thread holds, the innermost key first.
Mutexes are numbered in the order in which they are made. -/
structure KeyedLocks where
  entries : Table Nat
  made : Nat
  threads : List (List Hold)
deriving DecidableEq

/-- A step of a thread; all but `enter` concern its innermost key. -/
inductive LockStep where
  /-- Find or make the entry of a key and take a reference to its mutex. -/
  | enter (key : String)
  | acquire
  | release
  | giveBack
  /-- Take the entry away if only the table refers to its mutex. -/
  | sweep
deriving DecidableEq, Repr

namespace KeyedLocks

def idle (threads : Nat) : KeyedLocks := ⟨∅, 0, List.replicate threads []⟩

def isEmpty (locks : KeyedLocks) : Bool := locks.entries.isEmpty

def holds (locks : KeyedLocks) : List Hold := locks.threads.flatten

def isFree (locks : KeyedLocks) (mutex : Nat) : Bool :=
  locks.holds.all fun hold => !(hold.mutex == mutex && hold.owns)

def isReferenced (locks : KeyedLocks) (mutex : Nat) : Bool :=
  locks.holds.any fun hold => hold.mutex == mutex && hold.isReference

/-- Whether a thread that holds this may go on to a further key: it owns its
innermost mutex, and it does not work on the key already. -/
def mayEnter (held : List Hold) (key : String) : Bool :=
  held.head?.all Hold.owns && held.all fun hold => hold.key ≠ key

def enter (locks : KeyedLocks) (thread : Nat) (held : List Hold) (key : String) : KeyedLocks :=
  match locks.entries[key]? with
  | some mutex => { locks with threads := locks.threads.set thread (⟨key, mutex, .waiting⟩ :: held) }
  | none => {
      entries := locks.entries.insert key locks.made
      made := locks.made + 1
      threads := locks.threads.set thread (⟨key, locks.made, .waiting⟩ :: held) }

def move (locks : KeyedLocks) (thread : Nat) (hold : Hold) (outer : List Hold)
    (phase : LockPhase) : KeyedLocks :=
  { locks with threads := locks.threads.set thread ({ hold with phase } :: outer) }

def sweep (locks : KeyedLocks) (thread : Nat) (hold : Hold) (outer : List Hold) : KeyedLocks where
  entries :=
    match locks.entries[hold.key]? with
    | some mutex =>
      if locks.isReferenced mutex then locks.entries else locks.entries.erase hold.key
    | none => locks.entries
  made := locks.made
  threads := locks.threads.set thread outer

def step? (locks : KeyedLocks) (thread : Nat) (step : LockStep) : Option KeyedLocks :=
  match locks.threads[thread]?, step with
  | some held, .enter key =>
    if mayEnter held key then some (locks.enter thread held key) else none
  | some (hold :: outer), .acquire =>
    if hold.phase = .waiting ∧ locks.isFree hold.mutex then
      some (locks.move thread hold outer .inside)
    else none
  | some (hold :: outer), .release =>
    if hold.phase = .inside then some (locks.move thread hold outer .leaving) else none
  | some (hold :: outer), .giveBack =>
    if hold.phase = .leaving then some (locks.move thread hold outer .sweeping) else none
  | some (hold :: outer), .sweep =>
    if hold.phase = .sweeping then some (locks.sweep thread hold outer) else none
  | _, _ => none

/-- Several steps of one thread with nothing in between. -/
def steps? (locks : KeyedLocks) (thread : Nat) : List LockStep → Option KeyedLocks
  | [] => some locks
  | step :: rest => (locks.step? thread step).bind fun locks => locks.steps? thread rest

/-- The steps before the work on a key, and those after it. -/
def before (key : String) : List LockStep := [.enter key, .acquire]

def after : List LockStep := [.release, .giveBack, .sweep]

/-- A key that was worked on alone leaves nothing behind. -/
example : (((idle 1).steps? 0 (before "A" ++ after)).map isEmpty) = some true := by
  decide +kernel

/-- A thread cannot take its own key twice. -/
example : (((idle 1).steps? 0 (before "A" ++ before "A"))) = none := by decide +kernel

end KeyedLocks
end ArchiveIntake
