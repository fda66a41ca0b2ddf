import ArchiveIntake.Locks
import ArchiveIntake.Proofs.Table

/-! Threads that take locks by key, however their steps interleave. The entry of a key is
taken away and made again while threads come and go, so what keeps them apart is that a
reference always leads to the mutex that the table has for its key at that moment. -/

namespace ArchiveIntake.KeyedLocks

/-- Steps of any threads, in the order in which they happen. -/
def interleave? (locks : KeyedLocks) : List (Nat × LockStep) → Option KeyedLocks
  | [] => some locks
  | (thread, step) :: rest => (locks.step? thread step).bind fun locks => locks.interleave? rest

/-- A thread works on a key. -/
def Has (locks : KeyedLocks) (thread : Nat) (hold : Hold) : Prop :=
  ∃ held, locks.threads[thread]? = some held ∧ hold ∈ held

variable {locks after : KeyedLocks} {thread other : Nat} {hold twin : Hold} {held outer : List Hold}
  {key : String} {mutex : Nat}

theorem has_iff (found : locks.threads[thread]? = some held) :
    locks.Has thread hold ↔ hold ∈ held := by
  simp [Has, found]

theorem has_set_iff {entries : Table Nat} {made : Nat}
    (found : locks.threads[thread]? = some held) :
    (KeyedLocks.mk entries made (locks.threads.set thread outer)).Has other hold ↔
      if other = thread then hold ∈ outer else locks.Has other hold := by
  obtain ⟨inside, -⟩ := List.getElem?_eq_some_iff.mp found
  by_cases same : other = thread
  · subst same
    simp [Has, inside]
  · simp [Has, same, List.getElem?_set_ne (Ne.symm same)]

theorem isReferenced_iff :
    locks.isReferenced mutex = true ↔
      ∃ thread hold, locks.Has thread hold ∧ hold.isReference = true ∧ hold.mutex = mutex := by
  simp only [isReferenced, holds, List.any_eq_true, List.mem_flatten, Bool.and_eq_true, beq_iff_eq]
  constructor
  · rintro ⟨hold, ⟨held, member, inside⟩, same, reference⟩
    obtain ⟨thread, found⟩ := List.getElem?_of_mem member
    exact ⟨thread, hold, ⟨held, found, inside⟩, reference, same⟩
  · rintro ⟨thread, hold, ⟨held, found, inside⟩, reference, same⟩
    exact ⟨hold, ⟨held, List.mem_of_getElem? found, inside⟩, same, reference⟩

theorem not_owns_of_isFree (free : locks.isFree mutex = true) (has : locks.Has thread hold)
    (same : hold.mutex = mutex) : hold.owns = false := by
  obtain ⟨held, found, inside⟩ := has
  have apart := List.all_eq_true.mp free hold
    (List.mem_flatten.mpr ⟨held, List.mem_of_getElem? found, inside⟩)
  simpa [same] using apart

/-- What holds of the locks at any moment. -/
structure Valid (locks : KeyedLocks) : Prop where
  /-- A reference leads to the mutex that the table has now. -/
  current : ∀ thread hold, locks.Has thread hold → hold.isReference = true →
    locks.entries[hold.key]? = some hold.mutex
  made : ∀ (key : String) (mutex : Nat), locks.entries[key]? = some mutex → mutex < locks.made
  distinct : ∀ (key other : String) (mutex : Nat), locks.entries[key]? = some mutex →
    locks.entries[other]? = some mutex → key = other
  /-- Somebody will sweep what is in the table. -/
  used : ∀ key ∈ locks.entries, ∃ thread hold, locks.Has thread hold ∧ hold.key = key
  exclusive : ∀ thread other hold twin, locks.Has thread hold → locks.Has other twin →
    hold.owns = true → twin.owns = true → hold.mutex = twin.mutex → thread = other ∧ hold = twin

theorem valid_idle (count : Nat) : (idle count).Valid := by
  have nobody (thread : Nat) (hold : Hold) : ¬ (idle count).Has thread hold := by
    rintro ⟨held, found, inside⟩
    have empty := List.eq_of_mem_replicate (List.mem_of_getElem? found)
    rw [empty] at inside
    cases inside
  refine ⟨?_, by simp [idle], by simp [idle], by simp [idle], ?_⟩
  · intro thread hold has
    exact absurd has (nobody thread hold)
  · intro thread other hold twin has
    exact absurd has (nobody thread hold)

namespace Valid

/-- The innermost hold of a thread comes to another phase. A reference is never taken up
again, and nobody comes inside while another is. -/
theorem move {phase : LockPhase} (valid : locks.Valid)
    (found : locks.threads[thread]? = some (hold :: outer))
    (kept : phase ≠ .sweeping → hold.isReference = true)
    (free : phase = .inside → locks.isFree hold.mutex = true) :
    (locks.move thread hold outer phase).Valid := by
  have own : locks.Has thread hold := (has_iff found).mpr List.mem_cons_self
  have before {other : Nat} {twin : Hold} (has : (locks.move thread hold outer phase).Has other twin) :
      other = thread ∧ twin = { hold with phase } ∨ locks.Has other twin := by
    unfold KeyedLocks.move at has
    rw [has_set_iff found] at has
    split at has
    next same =>
      rcases List.mem_cons.mp has with rfl | inside
      · exact .inl ⟨same, rfl⟩
      · exact .inr (same ▸ (has_iff found).mpr (List.mem_cons_of_mem _ inside))
    next => exact .inr has
  refine ⟨?_, valid.made, valid.distinct, ?_, ?_⟩
  · intro other twin has reference
    rcases before has with ⟨rfl, rfl⟩ | has
    · exact valid.current _ hold own (kept (by simpa [Hold.isReference] using reference))
    · exact valid.current other twin has reference
  · intro key present
    obtain ⟨other, twin, has, same⟩ := valid.used key present
    by_cases moved : other = thread ∧ twin = hold
    · obtain ⟨rfl, rfl⟩ := moved
      exact ⟨other, { twin with phase }, (has_set_iff found).mpr (by simp), same⟩
    · refine ⟨other, twin, (has_set_iff found).mpr ?_, same⟩
      split
      next same =>
        subst same
        have different : twin ≠ hold := fun same => moved ⟨rfl, same⟩
        rcases List.mem_cons.mp ((has_iff found).mp has) with same | inside
        · exact absurd same different
        · exact List.mem_cons_of_mem _ inside
      next => exact has
  · -- Whoever comes inside finds the mutex free, so nobody else owns it.
    have alone {other : Nat} {twin : Hold} (owns : Hold.owns { hold with phase } = true)
        (has : locks.Has other twin) (twinOwns : twin.owns = true) (same : hold.mutex = twin.mutex) :
        False := by
      have inside : phase = .inside := by simpa [Hold.owns] using owns
      have idle := not_owns_of_isFree (free inside) has same.symm
      simp [idle] at twinOwns
    intro first second hold twin firstHas secondHas owns twinOwns same
    rcases before firstHas with ⟨rfl, rfl⟩ | firstWas
    · rcases before secondHas with ⟨rfl, rfl⟩ | secondWas
      · exact ⟨rfl, rfl⟩
      · exact (alone owns secondWas twinOwns same).elim
    · rcases before secondHas with ⟨rfl, rfl⟩ | secondWas
      · exact (alone twinOwns firstWas owns same.symm).elim
      · exact valid.exclusive first second hold twin firstWas secondWas owns twinOwns same

/-- A thread takes a reference to the mutex of a key, in a table that still has what there was. -/
theorem add {entries : Table Nat} {made : Nat} (valid : locks.Valid)
    (found : locks.threads[thread]? = some held) (here : entries[key]? = some mutex)
    (kept : ∀ (other : String) (older : Nat), locks.entries[other]? = some older →
      entries[other]? = some older)
    (new : ∀ other ∈ entries, other = key ∨ other ∈ locks.entries)
    (bounded : ∀ (other : String) (older : Nat), entries[other]? = some older → older < made)
    (distinct : ∀ (first second : String) (older : Nat), entries[first]? = some older →
      entries[second]? = some older → first = second) :
    (KeyedLocks.mk entries made
      (locks.threads.set thread (⟨key, mutex, .waiting⟩ :: held))).Valid := by
  have before {other : Nat} {twin : Hold} (has : (KeyedLocks.mk entries made
      (locks.threads.set thread (⟨key, mutex, .waiting⟩ :: held))).Has other twin) :
      twin = ⟨key, mutex, .waiting⟩ ∨ locks.Has other twin := by
    rw [has_set_iff found] at has
    split at has
    next same =>
      rcases List.mem_cons.mp has with rfl | inside
      · exact .inl rfl
      · exact .inr (same ▸ (has_iff found).mpr inside)
    next => exact .inr has
  refine ⟨?_, bounded, distinct, ?_, ?_⟩
  · intro other twin has reference
    rcases before has with rfl | has
    · exact here
    · exact kept _ _ (valid.current other twin has reference)
  · intro other present
    rcases new other present with rfl | present
    · exact ⟨thread, ⟨other, mutex, .waiting⟩, (has_set_iff found).mpr (by simp), rfl⟩
    · obtain ⟨owner, twin, has, same⟩ := valid.used other present
      refine ⟨owner, twin, (has_set_iff found).mpr ?_, same⟩
      split
      next same => exact List.mem_cons_of_mem _ ((has_iff found).mp (same ▸ has))
      next => exact has
  · intro first second hold twin firstHas secondHas owns twinOwns same
    rcases before firstHas with rfl | firstHas
    · cases owns
    · rcases before secondHas with rfl | secondHas
      · cases twinOwns
      · exact valid.exclusive first second hold twin firstHas secondHas owns twinOwns same

theorem enter (valid : locks.Valid) (found : locks.threads[thread]? = some held) (key : String) :
    (locks.enter thread held key).Valid := by
  unfold KeyedLocks.enter
  cases present : locks.entries[key]? with
  | some mutex =>
    exact valid.add found present (fun _ _ same => same) (fun _ => .inr) valid.made valid.distinct
  | none =>
    have lookup {other : String} : (locks.entries.insert key locks.made)[other]? =
        if other = key then some locks.made else locks.entries[other]? := Table.getElem?_insert_iff
    refine valid.add found (lookup.trans (if_pos rfl)) ?_ ?_ ?_ ?_
    · intro other older same
      rw [lookup, if_neg, same]
      rintro rfl
      cases present.symm.trans same
    · intro other member
      exact (Table.mem_insert_iff.mp member).symm
    · intro other older same
      rw [lookup] at same
      split at same
      · cases same
        exact Nat.lt_succ_self _
      · exact Nat.lt_succ_of_lt (valid.made other older same)
    · intro first second older firstSame secondSame
      rw [lookup] at firstSame secondSame
      split at firstSame <;> split at secondSame
      next one two => rw [one, two]
      next =>
        cases firstSame
        exact absurd (valid.made _ _ secondSame) (Nat.lt_irrefl _)
      next =>
        cases secondSame
        exact absurd (valid.made _ _ firstSame) (Nat.lt_irrefl _)
      next => exact valid.distinct first second older firstSame secondSame

/-- A thread drops its innermost hold, and the table loses nothing that others refer to and keeps
nothing that nobody works on. -/
theorem drop {entries : Table Nat} (valid : locks.Valid)
    (found : locks.threads[thread]? = some (hold :: outer))
    (subset : ∀ (key : String) (mutex : Nat), entries[key]? = some mutex →
      locks.entries[key]? = some mutex)
    (kept : ∀ other twin, locks.Has other twin → twin.isReference = true →
      entries[twin.key]? = some twin.mutex)
    (used : ∀ key ∈ entries, ∃ other twin, locks.Has other twin ∧ twin ≠ hold ∧ twin.key = key) :
    (KeyedLocks.mk entries locks.made (locks.threads.set thread outer)).Valid := by
  have before {other : Nat} {twin : Hold}
      (has : (KeyedLocks.mk entries locks.made (locks.threads.set thread outer)).Has other twin) :
      locks.Has other twin := by
    rw [has_set_iff found] at has
    split at has
    next same => exact same ▸ (has_iff found).mpr (List.mem_cons_of_mem _ has)
    next => exact has
  refine ⟨?_, ?_, ?_, ?_, ?_⟩
  · intro other twin has reference
    exact kept other twin (before has) reference
  · intro key mutex same
    exact valid.made key mutex (subset key mutex same)
  · intro first second mutex firstSame secondSame
    exact valid.distinct first second mutex (subset _ _ firstSame) (subset _ _ secondSame)
  · intro key member
    obtain ⟨other, twin, has, different, same⟩ := used key member
    refine ⟨other, twin, (has_set_iff found).mpr ?_, same⟩
    split
    next same =>
      subst same
      exact (List.mem_cons.mp ((has_iff found).mp has)).resolve_left different
    next => exact has
  · intro first second hold twin firstHas secondHas
    exact valid.exclusive first second hold twin (before firstHas) (before secondHas)

/-- An entry that a sweep leaves has a reference to its mutex, which can only be for its key. -/
theorem sweep (valid : locks.Valid) (found : locks.threads[thread]? = some (hold :: outer))
    (sweeping : hold.phase = .sweeping) : (locks.sweep thread hold outer).Valid := by
  unfold KeyedLocks.sweep
  cases present : locks.entries[hold.key]? with
  | none =>
    -- Another thread that was done with the key has taken the entry away.
    refine valid.drop found (fun _ _ same => same) valid.current ?_
    intro key member
    obtain ⟨other, twin, has, same⟩ := valid.used key member
    refine ⟨other, twin, has, ?_, same⟩
    rintro rfl
    exact Table.getElem?_eq_none_iff.mp present (same ▸ member)
  | some mutex =>
    by_cases referenced : locks.isReferenced mutex = true
    · simp only [if_pos referenced]
      refine valid.drop found (fun _ _ same => same) valid.current ?_
      intro key member
      obtain ⟨other, twin, has, same⟩ := valid.used key member
      by_cases dropped : twin = hold
      · -- Whoever holds the reference uses the entry now, and its key can only be this one.
        subst dropped
        obtain ⟨user, reference, has, isReference, sameMutex⟩ := isReferenced_iff.mp referenced
        have led := valid.current user reference has isReference
        rw [sameMutex] at led
        refine ⟨user, reference, has, ?_, (valid.distinct _ _ mutex led present).trans same⟩
        rintro rfl
        simp [Hold.isReference, sweeping] at isReference
      · exact ⟨other, twin, has, dropped, same⟩
    · simp only [if_neg referenced]
      refine valid.drop found ?_ ?_ ?_
      · intro key mutex same
        rw [Std.ExtTreeMap.getElem?_erase] at same
        split at same
        · cases same
        · exact same
      · intro other twin has reference
        have led := valid.current other twin has reference
        rw [Std.ExtTreeMap.getElem?_erase, if_neg, led]
        intro same
        rw [← Std.compare_eq_iff_eq.mp same, present] at led
        cases led
        exact referenced (isReferenced_iff.mpr ⟨other, twin, has, reference, rfl⟩)
      · intro key member
        obtain ⟨apart, member⟩ := Table.mem_erase_iff.mp member
        obtain ⟨other, twin, has, same⟩ := valid.used key member
        refine ⟨other, twin, has, ?_, same⟩
        rintro rfl
        exact apart same.symm

theorem step {step : LockStep} (valid : locks.Valid) (stepped : locks.step? thread step = some after) :
    after.Valid := by
  unfold step? at stepped
  split at stepped
  next held key found =>
    split at stepped
    · cases stepped
      exact valid.enter found key
    · cases stepped
  next hold outer found =>
    split at stepped
    next ready =>
      cases stepped
      exact valid.move found (fun _ => by simp [Hold.isReference, ready.1]) fun _ => ready.2
    next => cases stepped
  next hold outer found =>
    split at stepped
    next inside =>
      cases stepped
      exact valid.move found (fun _ => by simp [Hold.isReference, inside]) nofun
    next => cases stepped
  next hold outer found =>
    split at stepped
    next =>
      cases stepped
      exact valid.move found (fun kept => absurd rfl kept) nofun
    next => cases stepped
  next hold outer found =>
    split at stepped
    next sweeping =>
      cases stepped
      exact valid.sweep found sweeping
    next => cases stepped
  next => cases stepped

theorem interleave {moves : List (Nat × LockStep)} (valid : locks.Valid)
    (reached : locks.interleave? moves = some after) : after.Valid := by
  induction moves generalizing locks with
  | nil =>
    cases reached
    exact valid
  | cons move rest ih =>
    obtain ⟨middle, stepped, reached⟩ := Option.bind_eq_some_iff.mp reached
    exact ih (valid.step stepped) reached

end Valid

/-- However the steps of any threads interleave: work on a key excludes other work on it, a
reference leads to the mutex that the table has now, and the table is empty when nobody works. -/
theorem exclusive_of_interleave {count : Nat} {moves : List (Nat × LockStep)}
    (reached : (idle count).interleave? moves = some locks) :
    (∀ thread other hold twin, locks.Has thread hold → locks.Has other twin →
      hold.phase = .inside → twin.phase = .inside → hold.key = twin.key → thread = other) ∧
    (∀ thread hold, locks.Has thread hold → hold.isReference = true →
      locks.entries[hold.key]? = some hold.mutex) ∧
    ((∀ held ∈ locks.threads, held = []) → locks.isEmpty = true) := by
  have valid := (valid_idle count).interleave reached
  refine ⟨?_, valid.current, ?_⟩
  · intro thread other hold twin has twinHas inside twinInside same
    have led := valid.current thread hold has (by simp [Hold.isReference, inside])
    have twinLed := valid.current other twin twinHas (by simp [Hold.isReference, twinInside])
    rw [same, twinLed] at led
    exact (valid.exclusive thread other hold twin has twinHas (by simp [Hold.owns, inside])
      (by simp [Hold.owns, twinInside]) (Option.some.inj led).symm).1
  · intro resting
    refine Std.ExtTreeMap.isEmpty_iff.mpr (Std.ExtTreeMap.eq_empty_iff_forall_not_mem.mpr ?_)
    intro key member
    obtain ⟨thread, hold, ⟨held, found, inside⟩, -⟩ := valid.used key member
    rw [resting held (List.mem_of_getElem? found)] at inside
    cases inside

/-- Two threads on one key. The entry outlives the first of them because the second one waits, is
taken away by the second one, and is made again when the first one comes back. -/
def handover : List (Nat × LockStep) :=
  [(0, .enter "A"), (1, .enter "A"), (0, .acquire), (0, .release), (0, .giveBack), (0, .sweep),
    (1, .acquire), (1, .release), (1, .giveBack), (1, .sweep), (0, .enter "A"), (0, .acquire),
    (1, .enter "A")]

theorem exclusive_of_handover :
    ∃ locks, (idle 2).interleave? handover = some locks ∧
      locks.threads = [[⟨"A", 1, .inside⟩], [⟨"A", 1, .waiting⟩]] ∧
      (∀ other, locks.Has other ⟨"A", 1, .inside⟩ → other = 0) ∧ locks.entries["A"]? = some 1 := by
  let locks : KeyedLocks :=
    ⟨(∅ : Table Nat).insert "A" 1, 2, [[⟨"A", 1, .inside⟩], [⟨"A", 1, .waiting⟩]]⟩
  have reached : (idle 2).interleave? handover = some locks := by decide +kernel
  obtain ⟨exclusive, current, -⟩ := exclusive_of_interleave reached
  have first : locks.Has 0 ⟨"A", 1, .inside⟩ := ⟨_, rfl, List.mem_cons_self⟩
  refine ⟨locks, reached, rfl, ?_, current 0 _ first (by decide)⟩
  intro other has
  exact exclusive other 0 _ _ has first rfl rfl rfl

end ArchiveIntake.KeyedLocks
